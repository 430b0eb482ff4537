import TokioRcu.Lib.IdPool
import TokioRcu.SlotTable

/-!
# The slot table hands out ids

Each of the four ways to allocate, the reuse of a free slot, the first buffer,
the push in place and the push that re-allocates, keeps the pool of ids, the
slots and the length together.
-/

namespace TokioRcu

/-- The slots that have been written, in the current buffer. -/
def Table.slots (s : Table) : List Nat := (s.buffers s.ptr).getD []

/-- The buffer, its length and its capacity agree, and no call has panicked. -/
structure Table.Sound (s : Table) : Prop where
  buffer : 0 < s.capacity → s.buffers s.ptr = some s.slots
  length : s.slots.length = s.len
  len_le : s.len ≤ s.capacity
  poisoned : s.poisoned = false

structure Table.Inv (cfg : TableConfig) (s : Table) (g : Ledger) : Prop extends s.Sound where
  pool : Lib.IdPool g.live s.freeSlots s.len
  free : ∀ i ∈ s.freeSlots, s.slots[i]? = some ThreadState.noneEncodedValue
  live : ∀ i ∈ g.live, s.slots[i]? = some (g.state i)
  most : s.len = g.most
  ids : s.len ≤ cfg.maxSlots

namespace Table

variable {cfg : TableConfig} {s s' : Table} {g : Ledger} {i j v : Nat}

-- ---------------------------------------------------------------------------
-- What the calls do
-- ---------------------------------------------------------------------------

/-- Nothing but slot `i` and the free slots has changed. -/
structure Stored (s : Table) (i : SlotId) (v : Nat) (s' : Table) : Prop extends s'.Sound where
  slots : s'.slots = s.slots.set i v
  len : s'.len = s.len

/-- A slot has been added, wherever the buffer is now. -/
structure Pushed (s : Table) (v : Nat) (s' : Table) : Prop extends s'.Sound where
  slots : s'.slots = s.slots ++ [v]
  len : s'.len = s.len + 1
  freeSlots : s'.freeSlots = []

theorem Sound.load (h : s.Sound) (i : SlotId) : s.load i = s.slots[i]? := by
  unfold Table.load
  split
  · rename_i hi
    rw [h.buffer (Nat.lt_of_lt_of_le (Nat.zero_lt_of_lt hi) h.len_le)]
    rfl
  · rename_i hi
    exact (List.getElem?_eq_none (h.length ▸ Nat.not_lt.mp hi)).symm

theorem Sound.storeSlot (h : s.Sound) (hi : i < s.len) :
    ∃ s', s.storeSlot i v = .ok ((), s') ∧ s.Stored i v s' ∧ s'.freeSlots = s.freeSlots := by
  have hbuf := h.buffer (Nat.lt_of_lt_of_le (Nat.zero_lt_of_lt hi) h.len_le)
  have hstore : s.storeSlot i v = .ok ((), { s with
      buffers := Function.update s.buffers s.ptr (some (s.slots.set i v)) }) := by
    simp [Table.storeSlot, hi, hbuf]
  refine ⟨_, hstore, ⟨⟨fun _ => ?_, ?_, h.len_le, h.poisoned⟩, ?_, rfl⟩, rfl⟩
  · simp [Table.slots]
  · simpa [Table.slots] using h.length
  · simp [Table.slots]

/-- The outcome of a call to `alloc`, by the way it takes. -/
inductive AllocCase (cfg : TableConfig) (s : Table) (v : Nat) : Prop
  | reuse (i : SlotId) (rest : List SlotId) (s' : Table) : s.freeSlots = i :: rest → s.alloc cfg v = .ok (i, s') →
      s.Stored i v s' → s'.freeSlots = rest → AllocCase cfg s v
  | push (s' : Table) : s.freeSlots = [] → s.len < cfg.maxSlots → s.alloc cfg v = .ok (s.len, s') →
      s.Pushed v s' → AllocCase cfg s v
  | full : s.freeSlots = [] → cfg.maxSlots ≤ s.len →
      s.alloc cfg v = .error (if s.len < s.capacity then .tooManyThreads else .pushOverflow,
        { s.freeBuffer s.ptr with poisoned := true }) → AllocCase cfg s v

-- What `alloc` returns on each way, in full

theorem alloc_reuse_eq (h : s.Sound) {rest : List SlotId} (hf : s.freeSlots = i :: rest)
    (hi : i < s.len) :
    s.alloc cfg v = .ok (i, { s with
      freeSlots := rest
      buffers := Function.update s.buffers s.ptr (some (s.slots.set i v)) }) := by
  have hbuf := h.buffer (Nat.lt_of_lt_of_le (Nat.zero_lt_of_lt hi) h.len_le)
  have hp : ¬ s.poisoned = true := by simp [h.poisoned]
  rw [Table.alloc, locked, if_neg hp]
  simp [hf, allocFromFreeSlot, Table.storeSlot, hi, hbuf]

theorem alloc_first_eq (h : s.Sound) (hf : s.freeSlots = []) (hc : s.capacity = 0) :
    s.alloc cfg v = .ok (s.len, { s.allocBuffer [v] with
      ptr := s.nextBuf, len := 1, capacity := cfg.withCapacity (cfg.numCpus + 1) }) := by
  have hlen : s.len = 0 := Nat.le_zero.mp (hc ▸ h.len_le)
  simp [Table.alloc, locked, h.poisoned, hf, allocNoFreeSlots, hc, allocNoCurData, hlen]

theorem alloc_in_place_eq (h : s.Sound) (hf : s.freeSlots = []) (hc : s.len < s.capacity)
    (hm : s.len < cfg.maxSlots) :
    s.alloc cfg v = .ok (s.len, { s with
      buffers := Function.update s.buffers s.ptr (some (s.slots ++ [v])), len := s.len + 1 }) := by
  have hbuf := h.buffer (Nat.zero_lt_of_lt hc)
  have htake : s.slots.take s.len = s.slots := List.take_of_length_le (Nat.le_of_eq h.length)
  simp [Table.alloc, locked, h.poisoned, hf, allocNoFreeSlots, Nat.ne_of_gt (Nat.zero_lt_of_lt hc),
    allocGrowCurData, hbuf, hc, hm, htake]

theorem alloc_re_allocating_eq (h : s.Sound) (hf : s.freeSlots = []) (hpos : 0 < s.capacity)
    (hc : s.capacity ≤ s.len) (hm : s.len < cfg.maxSlots) :
    s.alloc cfg v = .ok (s.len, { (s.freeBuffer s.ptr).allocBuffer (s.slots ++ [v]) with
      ptr := s.nextBuf, len := s.len + 1, capacity := cfg.grow s.capacity }) := by
  have hbuf := h.buffer hpos
  have htake : s.slots.take s.len = s.slots := List.take_of_length_le (Nat.le_of_eq h.length)
  simp [Table.alloc, locked, h.poisoned, hf, allocNoFreeSlots, Nat.ne_of_gt hpos,
    allocGrowCurData, hbuf, Nat.not_lt.mpr hc, hm, htake]

theorem alloc_full (h : s.Sound) (hf : s.freeSlots = []) (hm : cfg.maxSlots ≤ s.len) :
    s.alloc cfg v = .error (if s.len < s.capacity then .tooManyThreads else .pushOverflow,
      { s.freeBuffer s.ptr with poisoned := true }) := by
  have hpos : 0 < s.capacity :=
    Nat.lt_of_lt_of_le cfg.maxSlots_pos (Nat.le_trans hm h.len_le)
  have hbuf := h.buffer hpos
  by_cases hc : s.len < s.capacity
  · simp [Table.alloc, locked, h.poisoned, hf, allocNoFreeSlots, Nat.ne_of_gt hpos,
      allocGrowCurData, hbuf, hc, Nat.not_lt.mpr hm]
  · simp [Table.alloc, locked, h.poisoned, hf, allocNoFreeSlots, Nat.ne_of_gt hpos,
      allocGrowCurData, hbuf, hc, Nat.not_lt.mpr hm]

-- What it comes to

variable (cfg v) in
theorem alloc_first (h : s.Sound) (hf : s.freeSlots = []) (hc : s.capacity = 0) :
    ∃ s', s.alloc cfg v = .ok (s.len, s') ∧ s.Pushed v s' ∧
      s'.capacity = cfg.withCapacity (cfg.numCpus + 1) := by
  have hlen : s.len = 0 := Nat.le_zero.mp (hc ▸ h.len_le)
  have hnil : s.slots = [] := List.length_eq_zero_iff.mp (h.length.trans hlen)
  have hcap := cfg.le_withCapacity (cfg.numCpus + 1)
  refine ⟨_, alloc_first_eq h hf hc, ⟨⟨fun _ => ?_, ?_, ?_, h.poisoned⟩, ?_, ?_, hf⟩, rfl⟩
  · simp [Table.slots, allocBuffer]
  · simp [Table.slots, allocBuffer]
  · show 1 ≤ cfg.withCapacity (cfg.numCpus + 1)
    omega
  · rw [hnil]
    simp [Table.slots, allocBuffer]
  · simp [hlen]

theorem alloc_in_place (h : s.Sound) (hf : s.freeSlots = []) (hc : s.len < s.capacity)
    (hm : s.len < cfg.maxSlots) :
    ∃ s', s.alloc cfg v = .ok (s.len, s') ∧ s.Pushed v s' ∧ s'.capacity = s.capacity := by
  refine ⟨_, alloc_in_place_eq h hf hc hm, ⟨⟨fun _ => ?_, ?_, hc, h.poisoned⟩, ?_, rfl, hf⟩, rfl⟩
  · simp [Table.slots]
  · simp [Table.slots, ← h.length]
  · simp [Table.slots]

theorem alloc_re_allocating (h : s.Sound) (hf : s.freeSlots = []) (hpos : 0 < s.capacity)
    (hc : s.capacity ≤ s.len) (hm : s.len < cfg.maxSlots) :
    ∃ s', s.alloc cfg v = .ok (s.len, s') ∧ s.Pushed v s' ∧ s'.capacity = cfg.grow s.capacity := by
  have hlt := cfg.lt_grow s.capacity
  have hle := h.len_le
  refine ⟨_, alloc_re_allocating_eq h hf hpos hc hm, ⟨⟨fun _ => ?_, ?_, ?_, h.poisoned⟩, ?_, rfl, hf⟩,
    rfl⟩
  · simp [Table.slots, allocBuffer, freeBuffer]
  · simp [Table.slots, allocBuffer, freeBuffer, ← h.length]
  · show s.len + 1 ≤ cfg.grow s.capacity
    omega
  · simp [Table.slots, allocBuffer, freeBuffer]

theorem alloc_reuse (h : s.Sound) {rest : List SlotId} (hf : s.freeSlots = i :: rest)
    (hi : i < s.len) :
    ∃ s', s.alloc cfg v = .ok (i, s') ∧ s.Stored i v s' ∧ s'.freeSlots = rest := by
  refine ⟨_, alloc_reuse_eq h hf hi, ⟨⟨fun _ => ?_, ?_, h.len_le, h.poisoned⟩, ?_, rfl⟩, rfl⟩
  · simp [Table.slots]
  · simpa [Table.slots] using h.length
  · simp [Table.slots]

variable (cfg v) in
/-- The three ways to make room for one more slot. -/
theorem alloc_push (h : s.Sound) (hf : s.freeSlots = []) (hm : s.len < cfg.maxSlots) :
    ∃ s', s.alloc cfg v = .ok (s.len, s') ∧ s.Pushed v s' ∧
      (s'.capacity = cfg.withCapacity (cfg.numCpus + 1) ∨
        0 < s.capacity ∧ (s'.capacity = s.capacity ∨ s'.capacity = cfg.grow s.capacity)) := by
  rcases Nat.eq_zero_or_pos s.capacity with hz | hpos
  · obtain ⟨s', hs, hp, hcap⟩ := alloc_first cfg v h hf hz
    exact ⟨s', hs, hp, .inl hcap⟩
  · rcases Nat.lt_or_ge s.len s.capacity with hc | hc
    · obtain ⟨s', hs, hp, hcap⟩ := alloc_in_place h hf hc hm
      exact ⟨s', hs, hp, .inr ⟨hpos, .inl hcap⟩⟩
    · obtain ⟨s', hs, hp, hcap⟩ := alloc_re_allocating h hf hpos hc hm
      exact ⟨s', hs, hp, .inr ⟨hpos, .inr hcap⟩⟩

/-- The four ways of `alloc`, and its panic. -/
theorem Inv.alloc_cases (h : s.Inv cfg g) (v : Nat) : s.AllocCase cfg v := by
  cases hf : s.freeSlots with
  | cons i rest =>
    have hi : i < s.len := h.pool.lt_of_free (hf ▸ List.mem_cons_self)
    obtain ⟨s', hs, hst, hfree⟩ := alloc_reuse h.toSound hf hi
    exact .reuse i rest s' hf hs hst hfree
  | nil =>
    rcases Nat.lt_or_ge s.len cfg.maxSlots with hm | hm
    · obtain ⟨s', hs, hp, -⟩ := alloc_push cfg v h.toSound hf hm
      exact .push s' hf hm hs hp
    · exact .full hf hm (alloc_full h.toSound hf hm)

theorem Sound.dealloc (h : s.Sound) (hi : i < s.len) :
    ∃ s', s.dealloc i = .ok ((), s') ∧ s.Stored i ThreadState.noneEncodedValue s' ∧
      s'.freeSlots = i :: s.freeSlots := by
  obtain ⟨s', hs, hst, hfree⟩ := h.storeSlot (v := ThreadState.noneEncodedValue) hi
  refine ⟨{ s' with freeSlots := i :: s'.freeSlots }, ?_,
    ⟨⟨hst.buffer, hst.length, hst.len_le, hst.poisoned⟩, hst.slots, hst.len⟩, by rw [hfree]⟩
  have hp : ¬ s.poisoned = true := by simp [h.poisoned]
  rw [Table.dealloc, locked, if_neg hp]
  simp only [hs]

-- ---------------------------------------------------------------------------
-- The invariant
-- ---------------------------------------------------------------------------

theorem Inv.new (cfg : TableConfig) : Table.new.Inv cfg .new where
  buffer := nofun
  length := rfl
  len_le := Nat.le_refl 0
  poisoned := rfl
  pool := .empty
  free := nofun
  live := nofun
  most := rfl
  ids := Nat.zero_le _

theorem Stored.getElem (h : s.Stored i v s') (hs : s.Sound) (hi : i < s.len) :
    s'.slots[i]? = some v := by
  rw [h.slots, List.getElem?_set_self (by rw [hs.length]; exact hi)]

theorem Stored.getElem_ne (h : s.Stored i v s') (hj : j ≠ i) : s'.slots[j]? = s.slots[j]? := by
  rw [h.slots, List.getElem?_set_ne (Ne.symm hj)]

theorem Pushed.getElem (h : s.Pushed v s') (hs : s.Sound) : s'.slots[s.len]? = some v := by
  rw [h.slots, ← hs.length, List.getElem?_concat_length]

theorem Pushed.getElem_ne (h : s.Pushed v s') (hs : s.Sound) (hj : j ≠ s.len) :
    s'.slots[j]? = s.slots[j]? := by
  rw [h.slots]
  by_cases hlt : j < s.len
  · exact List.getElem?_append_left (by rw [hs.length]; exact hlt)
  · have hlen := hs.length
    have hout : s.slots.length ≤ j := by omega
    have hout' : (s.slots ++ [v]).length ≤ j := by
      simp only [List.length_append, List.length_singleton]
      omega
    rw [List.getElem?_eq_none hout, List.getElem?_eq_none hout']

/-- The ids that were live keep their states when another id comes in. -/
theorem live_add (hold : ∀ j ∈ g.live, s.slots[j]? = some (g.state j)) (hnew : i ∉ g.live)
    (hi : s'.slots[i]? = some v) (hne : ∀ j, j ≠ i → s'.slots[j]? = s.slots[j]?) :
    ∀ j ∈ (g.add i v).live, s'.slots[j]? = some ((g.add i v).state j) := by
  intro j hj
  rcases List.mem_cons.mp hj with rfl | hj
  · simpa [Ledger.add] using hi
  · have hji : j ≠ i := fun he => hnew (he ▸ hj)
    rw [hne j hji, hold j hj]
    simp [Ledger.add, Function.update_of_ne hji]

theorem Inv.reuse (h : s.Inv cfg g) {rest : List SlotId} (hf : s.freeSlots = i :: rest)
    (hst : s.Stored i v s') (hfree : s'.freeSlots = rest) : s'.Inv cfg (g.add i v) := by
  have hi : i < s.len := h.pool.lt_of_free (hf ▸ List.mem_cons_self)
  have hpool : Lib.IdPool (i :: g.live) rest s.len := Lib.IdPool.take (hf ▸ h.pool)
  have hnew : i ∉ g.live := h.pool.not_used_of_free (hf ▸ List.mem_cons_self)
  have hlen : g.live.length + 1 ≤ s.len := by
    have := hpool.length
    simp only [List.length_cons] at this
    omega
  refine ⟨hst.toSound, ?_, ?_, ?_, ?_, ?_⟩
  · rw [hfree, hst.len]
    exact hpool
  · intro j hj
    rw [hfree] at hj
    have hji : j ≠ i := fun he => (hpool.not_used_of_free hj) (he ▸ List.mem_cons_self)
    rw [hst.getElem_ne hji]
    exact h.free j (hf ▸ List.mem_cons_of_mem i hj)
  · exact live_add h.live hnew (hst.getElem h.toSound hi) fun j hj => hst.getElem_ne hj
  · show s'.len = max g.most (g.live.length + 1)
    rw [hst.len, ← h.most]
    omega
  · rw [hst.len]
    exact h.ids

theorem Inv.push (h : s.Inv cfg g) (hf : s.freeSlots = []) (hm : s.len < cfg.maxSlots)
    (hp : s.Pushed v s') : s'.Inv cfg (g.add s.len v) := by
  have hpool := h.pool
  rw [hf] at hpool
  have hnew : s.len ∉ g.live := fun hl => Nat.lt_irrefl _ (h.pool.lt_of_used hl)
  refine ⟨hp.toSound, ?_, ?_, ?_, ?_, ?_⟩
  · rw [hp.freeSlots, hp.len]
    exact hpool.extend
  · rw [hp.freeSlots]
    nofun
  · exact live_add h.live hnew (hp.getElem h.toSound) fun j hj => hp.getElem_ne h.toSound hj
  · show s'.len = max g.most (g.live.length + 1)
    have hlen : g.live.length = s.len := hpool.length
    rw [hp.len, ← h.most, hlen]
    omega
  · rw [hp.len]
    exact hm

theorem Inv.dealloc (h : s.Inv cfg g) (hi : i ∈ g.live)
    (hst : s.Stored i ThreadState.noneEncodedValue s') (hfree : s'.freeSlots = i :: s.freeSlots) :
    s'.Inv cfg { g with live := g.live.erase i } := by
  refine ⟨hst.toSound, ?_, ?_, ?_, hst.len.trans h.most, hst.len ▸ h.ids⟩
  · rw [hfree, hst.len]
    exact h.pool.put hi
  · intro j hj
    rw [hfree] at hj
    rcases List.mem_cons.mp hj with rfl | hj
    · exact hst.getElem h.toSound (h.pool.lt_of_used hi)
    · have hji : j ≠ i := fun he => h.pool.not_used_of_free hj (he ▸ hi)
      rw [hst.getElem_ne hji]
      exact h.free j hj
  · intro j hj
    obtain ⟨hji, hj⟩ := (h.pool.nodup_used.mem_erase_iff).mp hj
    rw [hst.getElem_ne hji]
    exact h.live j hj

theorem Inv.store (h : s.Inv cfg g) (hi : i ∈ g.live) (hst : s.Stored i v s')
    (hfree : s'.freeSlots = s.freeSlots) :
    s'.Inv cfg { g with state := Function.update g.state i v } := by
  refine ⟨hst.toSound, ?_, ?_, ?_, hst.len.trans h.most, hst.len ▸ h.ids⟩
  · rw [hfree, hst.len]
    exact h.pool
  · intro j hj
    rw [hfree] at hj
    have hji : j ≠ i := fun he => h.pool.not_used_of_free hj (he ▸ hi)
    rw [hst.getElem_ne hji]
    exact h.free j hj
  · intro j hj
    by_cases hji : j = i
    · subst hji
      simpa using hst.getElem h.toSound (h.pool.lt_of_used hi)
    · rw [hst.getElem_ne hji, h.live j hj]
      simp [hji]

/-- A call that returns, whichever it is. -/
theorem Inv.exec (h : s.Inv cfg g) {op : TableOp} (ho : OwnedOnly (s, g) op)
    (hs : op.exec cfg s = some s') : s'.Inv cfg (g.next cfg s op) := by
  cases op with
  | alloc v =>
    simp only [TableOp.exec, Ledger.next] at hs ⊢
    cases h.alloc_cases v with
    | reuse i rest s₁ hf ha hst hfree =>
      rw [ha] at hs ⊢
      cases hs
      exact h.reuse hf hst hfree
    | push s₁ hf hm ha hp =>
      rw [ha] at hs ⊢
      cases hs
      exact h.push hf hm hp
    | full _ _ ha =>
      rw [ha] at hs
      cases hs
  | dealloc i =>
    obtain ⟨s₁, hd, hst, hfree⟩ := h.toSound.dealloc (h.pool.lt_of_used ho)
    simp only [TableOp.exec, hd] at hs
    cases hs
    exact h.dealloc ho hst hfree
  | store i v =>
    obtain ⟨s₁, hd, hst, hfree⟩ := h.toSound.storeSlot (v := v) (h.pool.lt_of_used ho)
    simp only [TableOp.exec, hd] at hs
    cases hs
    exact h.store ho hst hfree

theorem inv_of_reach {x : Table × Ledger} (h : (tableMachine cfg).Reach OwnedOnly x) :
    x.1.Inv cfg x.2 := by
  induction h with
  | @init x hx =>
    obtain ⟨s, g⟩ := x
    obtain ⟨rfl, rfl⟩ := hx
    exact .new cfg
  | step _ ho hs ih =>
    obtain ⟨hs, hg⟩ := Lib.Machine.track_step.mp hs
    rw [hg]
    exact ih.exec ho hs

-- ---------------------------------------------------------------------------
-- The allocator
-- ---------------------------------------------------------------------------

/-- What the users of the table rely on. -/
structure AllocatorOk (cfg : TableConfig) (s : Table) (g : Ledger) : Prop where
  partition : ∀ i, i < s.len ↔ i ∈ g.live ∨ i ∈ s.freeSlots
  disjoint : ∀ i ∈ s.freeSlots, i ∉ g.live
  nodup_free : s.freeSlots.Nodup
  nodup_live : g.live.Nodup
  vacant : ∀ i ∈ s.freeSlots, s.load i = some ThreadState.noneEncodedValue
  /-- An id names the slot of its owner, with the state that the owner stored last. -/
  occupied : ∀ i ∈ g.live, s.load i = some (g.state i)
  len_le : s.len ≤ s.capacity
  len_eq : s.len = g.most
  alloc : ∀ v i s', s.alloc cfg v = .ok (i, s') →
    i ∉ g.live ∧ s'.load i = some v ∧ ∀ j, j ≠ i → s'.load j = s.load j
  dealloc : ∀ i s', i ∈ g.live → s.dealloc i = .ok ((), s') →
    s'.load i = some ThreadState.noneEncodedValue ∧ ∀ j, j ≠ i → s'.load j = s.load j
  alloc_returns : ∀ v, g.live.length < cfg.maxSlots → ∃ r, s.alloc cfg v = .ok r
  dealloc_returns : ∀ i ∈ g.live, ∃ r, s.dealloc i = .ok r

theorem Inv.allocatorOk (h : s.Inv cfg g) : s.AllocatorOk cfg g where
  partition i := h.pool.mem_iff
  disjoint _ hi := h.pool.not_used_of_free hi
  nodup_free := h.pool.nodup_free
  nodup_live := h.pool.nodup_used
  vacant i hi := (h.toSound.load i).trans (h.free i hi)
  occupied i hi := (h.toSound.load i).trans (h.live i hi)
  len_le := h.len_le
  len_eq := h.most
  alloc v i s' ha := by
    cases h.alloc_cases v with
    | reuse k rest s₁ hf hk hst hfree =>
      rw [ha] at hk
      cases hk
      have hi : i ∈ s.freeSlots := hf ▸ List.mem_cons_self
      refine ⟨h.pool.not_used_of_free hi, ?_, fun j hj => ?_⟩
      · rw [hst.load]
        exact hst.getElem h.toSound (h.pool.lt_of_free hi)
      · rw [hst.load, h.toSound.load]
        exact hst.getElem_ne hj
    | push s₁ hf hm hk hp =>
      rw [ha] at hk
      cases hk
      refine ⟨fun hl => Nat.lt_irrefl _ (h.pool.lt_of_used hl), ?_, fun j hj => ?_⟩
      · rw [hp.load]
        exact hp.getElem h.toSound
      · rw [hp.load, h.toSound.load]
        exact hp.getElem_ne h.toSound hj
    | full _ _ hk =>
      rw [ha] at hk
      cases hk
  dealloc i s' hi hd := by
    have hlt := h.pool.lt_of_used hi
    obtain ⟨s₁, hs, hst, -⟩ := h.toSound.dealloc hlt
    rw [hd] at hs
    cases hs
    refine ⟨?_, fun j hj => ?_⟩
    · rw [hst.load]
      exact hst.getElem h.toSound hlt
    · rw [hst.load, h.toSound.load]
      exact hst.getElem_ne hj
  alloc_returns v hlt := by
    cases h.alloc_cases v with
    | reuse k rest s₁ _ ha => exact ⟨_, ha⟩
    | push s₁ _ _ ha => exact ⟨_, ha⟩
    | full hf hm =>
      have hpool := h.pool
      rw [hf] at hpool
      have hlen : g.live.length = s.len := hpool.length
      omega
  dealloc_returns i hi := by
    obtain ⟨s₁, hs, -⟩ := h.toSound.dealloc (h.pool.lt_of_used hi)
    exact ⟨_, hs⟩

/-- In every serialisation of the calls. -/
theorem slot_allocator_correct {x : Table × Ledger} (h : (tableMachine cfg).Reach OwnedOnly x) :
    x.1.AllocatorOk cfg x.2 := (inv_of_reach h).allocatorOk

end Table

instance (x : Table × Ledger) : (op : TableOp) → Decidable (OwnedOnly x op)
  | .alloc _ => .isTrue True.intro
  | .dealloc i | .store i _ => inferInstanceAs (Decidable (i ∈ x.2.live))

/-- Three allocations, the last one after a free, and a growth in between. -/
theorem slot_allocator_correct_reuse : ∃ x : Table × Ledger,
    x.1.AllocatorOk (.of 1) x.2 ∧ x.2.live = [1, 2, 0] ∧ x.1.capacity = 4 := by
  obtain ⟨x, hx, hp⟩ := Lib.Machine.exists_of_runIf (M := tableMachine (.of 1)) OwnedOnly
    [.alloc 1, .alloc 3, .alloc 5, .store 2 7, .dealloc 1, .alloc 9]
    (fun x => x.2.live == [1, 2, 0] && x.1.capacity == 4) (s := (.new, .new)) ⟨rfl, rfl⟩ (by decide)
  simp only [Bool.and_eq_true, beq_iff_eq] at hp
  exact ⟨x, Table.slot_allocator_correct hx, hp.1, hp.2⟩

end TokioRcu
