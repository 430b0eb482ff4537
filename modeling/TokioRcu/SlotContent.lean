import TokioRcu.SlotReaders

/-!
# The slot table takes effect at once

What the calls of `thread_storage_slots.rs` have done so far, as one list of
states and one stack of free slots. Of all the accesses of a call one changes
them, the store to the slot or to the length, and does what the whole call does.
A guard finds in its slice what the list has.
-/

namespace TokioRcu

/-- The buffer with the slots, when the call that holds the write lock is at this place. -/
def CallPc.buffer (s : Table) : CallPc → BufId
  | .setPtr _ _ _ b => b
  | _ => s.ptr

/-- The slots that are free for the next call: one that is set aside still is,
and one that has been emptied is already. -/
def CallPc.vacant (s : Table) : CallPc → List SlotId
  | .storeFree _ i | .pushFree i => i :: s.freeSlots
  | _ => s.freeSlots

/-- The call is going to push, since no slot was free. -/
def CallPc.pushes : CallPc → Bool
  | .create _ | .lockCreate _ _ | .pushInPlace _ | .storeLen _ _ | .lockGrow _ | .pushGrow _
  | .setPtr _ _ _ _ | .setLen _ _ _ => true
  | _ => false

/-- The next access is the one that takes effect. -/
def CallPc.commits : CallPc → Bool
  | .storeFree _ _ | .storeLen _ _ | .setLen _ _ _ | .storeNone _ => true
  | _ => false

namespace Slots

def content (x : Slots) : List Nat :=
  ((x.table.buffers (x.holder.buffer x.table)).getD []).take x.table.len

def vacant (x : Slots) : List SlotId := x.holder.vacant x.table

variable {cfg : TableConfig} {x x' : Slots} {t u : Tid} {pc : CallPc} {i v : Nat} {g : GuardId}

theorem content_of_backs {slots : List Nat} (h : x.holder.Backs x.table slots) :
    x.content = slots := by
  unfold content
  have hlen := h.length
  cases hpc : x.holder <;> rw [hpc] at h <;> simp only [CallPc.Backs, CallPc.buffer] at h ⊢
  case create => rw [h.2.1, h.2.2, List.take_zero]
  case lockCreate => rw [h.2.1, h.2.2.2, List.take_zero]
  case pushInPlace | lockGrow | pushGrow | setCapacity => simp [h.2.1, ← hlen]
  case storeLen | setLen | setPtr => simp [h.2.1, ← hlen]
  all_goals
    by_cases hc : x.table.capacity = 0
    · rw [h.2.1 hc, List.take_zero]
      exact (List.length_eq_zero_iff.mp (hlen.trans (h.2.1 hc))).symm
    · simp [h.2.2 hc, ← hlen]

theorem Inv.backs (h : x.Inv) : x.holder.Backs x.table x.content := by
  obtain ⟨slots, hb, -⟩ := h.slots
  exact content_of_backs hb ▸ hb

theorem Inv.content_length (h : x.Inv) : x.content.length = x.table.len := h.backs.length

theorem Inv.guardLoad (h : x.Inv) {b n : Nat} (hv : x.views g = some (b, n)) (hi : i < n) :
    x.guardLoad g i = x.content[i]? := by
  obtain ⟨hg, rfl, hle⟩ := h.views g b n hv
  have hlt : i < x.content.length := by
    rw [h.content_length]
    exact Nat.lt_of_lt_of_le hi hle
  have hpos : x.table.len ≠ 0 := by
    rw [← h.content_length]
    exact Nat.ne_of_gt (Nat.zero_lt_of_lt hlt)
  obtain ⟨more, hm⟩ := (CallPc.Backs.buffer h.backs (h.holder_not_writing hg)).resolve_left hpos
  simp [Slots.guardLoad, hv, hi, hm, List.getElem?_append_left hlt]

-- ---------------------------------------------------------------------------
-- The accesses without effect
-- ---------------------------------------------------------------------------

/-- Nobody can tell the two apart by the states and the ids. -/
structure Same (x x' : Slots) : Prop where
  content : x'.content = x.content
  len : x'.table.len = x.table.len
  vacant : x'.vacant = x.vacant

/-- The call that has the write lock goes on with it. -/
theorem Inv.same_inside (h : x.Inv) (ht : (x.calls t).locked = true)
    (hcalls : x'.calls = Function.update x.calls t pc) (hw : x'.writeLock = x.writeLock)
    (hcontent : ((x'.table.buffers (pc.buffer x'.table)).getD []).take x'.table.len = x.content)
    (hlen : x'.table.len = x.table.len) (hvacant : pc.vacant x'.table = x.vacant) : x.Same x' := by
  have hlock : x.writeLock = some t := (h.lock t).mpr ht
  have hholder : x'.holder = pc := by simp [holder, hw, hlock, hcalls]
  refine ⟨?_, hlen, ?_⟩
  · rw [content, hholder]
    exact hcontent
  · rw [vacant, hholder]
    exact hvacant

/-- Nothing that the table is made of changes, nor who has the write lock. -/
theorem same_of_holder (htable : x'.table = x.table)
    (hholder : x'.holder.buffer x.table = x.holder.buffer x.table)
    (hvacant : x'.holder.vacant x.table = x.holder.vacant x.table) : x.Same x' := by
  refine ⟨?_, by rw [htable], ?_⟩
  · rw [content, content, htable, hholder]
  · rw [vacant, vacant, htable, hvacant]

theorem callStep_same (h : x.Inv) (hs : x.callStep cfg t = some x')
    (hc : (x.calls t).commits = false) : x.Same x' := by
  have hvacant (ht : (x.calls t).locked = true) : x.vacant = (x.calls t).vacant x.table := by
    rw [vacant, h.holder_eq ht]
  have hcontent (ht : (x.calls t).locked = true) : x.content =
      ((x.table.buffers ((x.calls t).buffer x.table)).getD []).take x.table.len := by
    rw [content, h.holder_eq ht]
  have hb := h.backs
  cases hpc : x.calls t <;> simp only [callStep, hpc, reduceCtorEq] at hs hc hvacant hcontent
  case allocLock v =>
    split at hs <;> cases hs
    rename_i hfree
    refine same_of_holder rfl ?_ ?_ <;> simp [holder, goto, hfree, CallPc.buffer, CallPc.vacant]
  case deallocLock i =>
    split at hs <;> cases hs
    rename_i hfree
    refine same_of_holder rfl ?_ ?_ <;> simp [holder, goto, hfree, CallPc.buffer, CallPc.vacant]
  case popFree v =>
    have ht : (x.calls t).locked = true := by rw [hpc]; rfl
    split at hs
    · rename_i i rest hf
      cases hs
      exact h.same_inside ht rfl rfl (hcontent rfl).symm rfl ((hvacant rfl).trans hf).symm
    · cases hs
      refine h.same_inside ht rfl rfl ?_ rfl ?_
      · rw [hcontent rfl]
        split
        · rfl
        · split <;> rfl
      · rw [hvacant rfl]
        split
        · rfl
        · split <;> rfl
  case create v =>
    cases hs
    have ht : (x.calls t).locked = true := by rw [hpc]; rfl
    rw [h.holder_eq ht, hpc] at hb
    refine h.same_inside ht rfl rfl ?_ rfl (hvacant rfl).symm
    rw [hcontent rfl]
    simp [Table.allocBuffer, goto, hb.2.1]
  case lockCreate v b =>
    obtain ⟨l, -, rfl⟩ := Option.map_eq_some_iff.mp hs
    have ht : (x.calls t).locked = true := by rw [hpc]; rfl
    rw [h.holder_eq ht, hpc] at hb
    refine h.same_inside ht rfl rfl ?_ rfl (hvacant rfl).symm
    rw [hcontent rfl]
    simp [goto, hb.2.1]
  case pushInPlace v =>
    split at hs <;> cases hs
    have ht : (x.calls t).locked = true := by rw [hpc]; rfl
    rw [h.holder_eq ht, hpc] at hb
    refine h.same_inside ht rfl rfl ?_ rfl (hvacant rfl).symm
    rw [hcontent rfl]
    simp [Table.pushInPlace, goto, CallPc.buffer, hb.2.1, ← hb.2.2]
  case lockGrow v =>
    obtain ⟨l, -, rfl⟩ := Option.map_eq_some_iff.mp hs
    have ht : (x.calls t).locked = true := by rw [hpc]; rfl
    exact h.same_inside ht rfl rfl (hcontent rfl).symm rfl (hvacant rfl).symm
  case pushGrow v =>
    split at hs <;> cases hs
    have ht : (x.calls t).locked = true := by rw [hpc]; rfl
    rw [h.holder_eq ht, hpc] at hb
    obtain ⟨hfree, hlen⟩ := x.table.pushGrow_frame v
    refine h.same_inside ht rfl rfl ?_ hlen (hfree.trans (hvacant rfl).symm)
    rw [hcontent rfl]
    simp [Table.pushGrow, goto, CallPc.buffer, hb.2.1, Table.allocBuffer, Table.freeBuffer, ← hb.2.2]
  case setPtr v n cap b =>
    cases hs
    exact h.same_inside (by rw [hpc]; rfl) rfl rfl (hcontent rfl).symm rfl (hvacant rfl).symm
  case setCapacity cap =>
    cases hs
    exact h.same_inside (by rw [hpc]; rfl) rfl rfl (hcontent rfl).symm rfl (hvacant rfl).symm
  case unlockCur =>
    cases hs
    exact h.same_inside (by rw [hpc]; rfl) rfl rfl (hcontent rfl).symm rfl (hvacant rfl).symm
  case pushFree i =>
    cases hs
    exact h.same_inside (by rw [hpc]; rfl) rfl rfl (hcontent rfl).symm rfl (hvacant rfl).symm
  case unlock =>
    cases hs
    have hholder := h.holder_eq (t := t) (by rw [hpc]; rfl)
    refine same_of_holder rfl ?_ ?_ <;> rw [hholder, hpc] <;> rfl

  all_goals cases hc

/-- A thread that is in no call does not have the write lock. -/
theorem Inv.holder_of_idle (h : x.Inv) (ht : x.calls t = .idle) (hw : x'.writeLock = x.writeLock)
    (hcalls : x'.calls = Function.update x.calls t pc) : x'.holder = x.holder := by
  unfold holder
  rw [hw, hcalls]
  cases hl : x.writeLock with
  | none => rfl
  | some u =>
    refine Function.update_of_ne (fun hut => ?_) _ _
    have := (h.lock u).mp hl
    rw [hut, ht] at this
    cases this

/-- A call begins, or a guard is taken, used to look at the current data, or dropped. -/
theorem step_same (h : x.Inv) {a : SlotsAct} (hs : x.step cfg a = some x')
    (hcall : ∀ t, a ≠ .call t) (hstore : ∀ g i v, a ≠ .store g i v) : x.Same x' := by
  cases a with
  | call t => exact absurd rfl (hcall t)
  | store g i v => exact absurd rfl (hstore g i v)
  | alloc t v =>
    simp only [step] at hs
    split at hs <;> cases hs
    rename_i ht
    have hy : (x.goto t (.allocLock v)).holder = x.holder := h.holder_of_idle ht rfl rfl
    exact same_of_holder rfl (by rw [hy]) (by rw [hy])
  | dealloc t i =>
    simp only [step] at hs
    split at hs <;> cases hs
    rename_i ht
    have hy : ({ x with live := Function.update x.live i none }.goto t (.deallocLock i)).holder =
        x.holder := h.holder_of_idle ht rfl rfl
    exact same_of_holder rfl (by rw [hy]) (by rw [hy])
  | read g =>
    simp only [step] at hs
    split at hs
    · cases hs
    · obtain ⟨l, -, rfl⟩ := Option.map_eq_some_iff.mp hs
      exact ⟨rfl, rfl, rfl⟩
  | deref | drop =>
    simp only [step] at hs
    split at hs <;> cases hs
    exact ⟨rfl, rfl, rfl⟩

-- ---------------------------------------------------------------------------
-- The accesses that take effect
-- ---------------------------------------------------------------------------

theorem getD_map_set (o : Option (List Nat)) (i v : Nat) :
    (o.map fun slots => slots.set i v).getD [] = (o.getD []).set i v := by
  cases o <;> rfl

/-- A slot gets a state while nothing moves. -/
theorem content_write (hpc : x.holder.writing = false) (hpc' : x'.holder.writing = false)
    (htable : x'.table = x.table.write x.table.ptr i v) : x'.content = x.content.set i v := by
  have hptr {y : Slots} (hy : y.holder.writing = false) : y.holder.buffer y.table = y.table.ptr := by
    cases hh : y.holder <;> rw [hh] at hy <;> first | rfl | cases hy
  rw [content, content, hptr hpc, hptr hpc', htable, ← List.take_set, ← getD_map_set]
  simp [Table.write]

/-- One slot goes from the free ones to a caller, in its initial state. -/
structure Reused (x : Slots) (i : SlotId) (v : Nat) (x' : Slots) : Prop where
  content : x'.content = x.content.set i v
  len : x'.table.len = x.table.len
  vacant : x.vacant = i :: x'.vacant
  lt : i < x.table.len

/-- A caller gets a new slot in its initial state. -/
structure Grown (x : Slots) (i : SlotId) (v : Nat) (x' : Slots) : Prop where
  content : x'.content = x.content ++ [v]
  len : x'.table.len = x.table.len + 1
  vacant : x'.vacant = x.vacant
  id : i = x.table.len

/-- A slot is empty, and goes back to the free ones. -/
structure Vacated (x : Slots) (i : SlotId) (x' : Slots) : Prop where
  content : x'.content = x.content.set i ThreadState.noneEncodedValue
  len : x'.table.len = x.table.len
  vacant : x'.vacant = i :: x.vacant

theorem storeFree_reused (h : x.Inv) (hpc : x.calls t = .storeFree v i)
    (hs : x.callStep cfg t = some x') : x.Reused i v x' := by
  have ht : (x.calls t).locked = true := by rw [hpc]; rfl
  have hholder := (h.holder_eq ht).trans hpc
  obtain ⟨-, -, hlt⟩ := h.holds t i (by rw [hpc]; rfl)
  simp only [callStep, hpc, Option.some.injEq] at hs
  subst hs
  have hl : Slots.LockedBy (({ x with table := x.table.write x.table.ptr i v }.publish i v).goto t
    .unlock) .unlock := h.inside ht rfl rfl rfl
  refine ⟨content_write (by rw [hholder]; rfl) (by rw [hl.holder]; rfl) rfl, rfl, ?_, hlt⟩
  rw [vacant, vacant, hholder, hl.holder]
  rfl

theorem storeNone_vacated (h : x.Inv) (hpc : x.calls t = .storeNone i)
    (hs : x.callStep cfg t = some x') : x.Vacated i x' := by
  have ht : (x.calls t).locked = true := by rw [hpc]; rfl
  have hholder := (h.holder_eq ht).trans hpc
  simp only [callStep, hpc, Option.some.injEq] at hs
  subst hs
  have hl : Slots.LockedBy ({ x with
    table := x.table.write x.table.ptr i ThreadState.noneEncodedValue }.goto t (.pushFree i))
    (.pushFree i) := h.inside ht rfl rfl rfl
  refine ⟨content_write (by rw [hholder]; rfl) (by rw [hl.holder]; rfl) rfl, rfl, ?_⟩
  rw [vacant, vacant, hholder, hl.holder]
  rfl

/-- The two stores to the length. -/
theorem storeLen_grown (h : x.Inv) {n : Nat}
    (hpc : x.calls t = .storeLen v n ∨ ∃ cap, x.calls t = .setLen v n cap)
    (hs : x.callStep cfg t = some x') : x.Grown (n - 1) v x' := by
  have ht : (x.calls t).locked = true := by
    rcases hpc with hp | ⟨cap, hp⟩ <;> rw [hp] <;> rfl
  have hb := h.backs
  have hlen := h.content_length
  rw [h.holder_eq ht] at hb
  obtain ⟨next, hnext, he⟩ : ∃ next : CallPc, (next = .unlock ∨ ∃ cap, next = .setCapacity cap) ∧
      x' = ({ x with table := { x.table with len := n } }.publish (n - 1) v).goto t next := by
    rcases hpc with hp | ⟨cap, hp⟩ <;> simp only [callStep, hp, Option.some.injEq] at hs
    · exact ⟨_, .inl rfl, hs.symm⟩
    · exact ⟨_, .inr ⟨cap, rfl⟩, hs.symm⟩
  have hbuf : x.table.buffers x.table.ptr = some (x.content ++ [v]) ∧ n = x.table.len + 1 := by
    rcases hpc with hp | ⟨cap, hp⟩ <;> rw [hp] at hb <;> exact ⟨hb.2.1, hb.2.2.2⟩
  have hlock : next.locked = true := by
    rcases hnext with rfl | ⟨cap, rfl⟩ <;> rfl
  have hl : x'.LockedBy next := h.inside ht hlock (by rw [he]; rfl) (by rw [he]; rfl)
  have hold : (x.calls t).vacant x.table = x.table.freeSlots := by
    rcases hpc with hp | ⟨cap, hp⟩ <;> rw [hp] <;> rfl
  refine ⟨?_, ?_, ?_, Nat.sub_eq_of_eq_add hbuf.2⟩
  · rw [content, hl.holder]
    have hptr : next.buffer x'.table = x.table.ptr := by
      rw [he]
      rcases hnext with rfl | ⟨cap, rfl⟩ <;> rfl
    rw [hptr, he]
    simp [goto, publish, hbuf.1, hbuf.2, ← hlen]
  · rw [he]
    exact hbuf.2
  · rw [vacant, vacant, hl.holder, h.holder_eq ht, hold, he]
    rcases hnext with rfl | ⟨cap, rfl⟩ <;> rfl

theorem store_content (h : x.Inv) {b n : Nat} (hv : x.views g = some (b, n)) :
    ({ x with table := x.table.write b i v }.publish i v).content = x.content.set i v := by
  obtain ⟨hg, rfl, -⟩ := h.views g b n hv
  exact content_write (h.holder_not_writing hg) (h.holder_not_writing hg) rfl

-- ---------------------------------------------------------------------------
-- No slot is free while a call pushes
-- ---------------------------------------------------------------------------

def PushOk (x : Slots) : Prop := ∀ t, (x.calls t).pushes = true → x.table.freeSlots = []

theorem locked_of_pushes (h : pc.pushes = true) : pc.locked = true := by
  cases pc <;> first | rfl | cases h

/-- An access of thread `t` leaves every other call where it is. -/
theorem callStep_calls (hs : x.callStep cfg t = some x') {u : Tid} (hu : u ≠ t) :
    x'.calls u = x.calls u := by
  have hgo {y : Slots} (hy : y.calls = x.calls) (pc : CallPc) : (y.goto t pc).calls u = x.calls u := by
    rw [← hy]
    exact Function.update_of_ne hu _ _
  cases hpc : x.calls t <;> simp only [callStep, hpc, reduceCtorEq, Option.some.injEq] at hs
  case popFree =>
    split at hs <;> cases hs <;> exact hgo rfl _
  case allocLock | deallocLock | pushInPlace | pushGrow =>
    split at hs <;> cases hs
    exact hgo rfl _
  case lockCreate | lockGrow =>
    obtain ⟨l, -, rfl⟩ := Option.map_eq_some_iff.mp hs
    exact hgo rfl _
  all_goals
    subst hs
    exact hgo rfl _

/-- Where a call goes that is about to push, and what it leaves of the free slots. -/
theorem callStep_pushes (hs : x.callStep cfg t = some x') (hp : (x'.calls t).pushes = true) :
    ((x.calls t).pushes = true ∧ x'.table.freeSlots = x.table.freeSlots) ∨
      x'.table.freeSlots = [] := by
  have hself {y : Slots} {pc : CallPc} (h : ((y.goto t pc).calls t).pushes = true) :
      pc.pushes = true := by
    simpa [goto] using h
  cases hpc : x.calls t <;> simp only [callStep, hpc, reduceCtorEq, Option.some.injEq] at hs
  case popFree =>
    split at hs
    · cases hs
      cases hself hp
    · rename_i hf
      cases hs
      exact .inr hf
  case allocLock | deallocLock =>
    split at hs <;> cases hs
    cases hself hp
  case pushInPlace =>
    split at hs <;> cases hs
    exact .inl ⟨rfl, rfl⟩
  case pushGrow v =>
    split at hs <;> cases hs
    exact .inl ⟨rfl, (x.table.pushGrow_frame v).1⟩
  case lockCreate | lockGrow =>
    obtain ⟨l, -, rfl⟩ := Option.map_eq_some_iff.mp hs
    exact .inl ⟨rfl, rfl⟩
  case create | setPtr =>
    subst hs
    exact .inl ⟨rfl, rfl⟩
  all_goals
    subst hs
    cases hself hp

/-- Without the write lock a call touches nothing of the table. -/
theorem callStep_unlocked (ht : (x.calls t).locked = false) (hs : x.callStep cfg t = some x') :
    x'.table = x.table := by
  cases hpc : x.calls t <;> rw [hpc] at ht <;>
    simp only [callStep, hpc, reduceCtorEq, Option.some.injEq] at hs
  case allocLock | deallocLock =>
    split at hs <;> cases hs
    rfl
  all_goals cases ht

theorem PushOk.step (hp : x.PushOk) (h : x.Inv) {a : SlotsAct} (hs : x.step cfg a = some x') :
    x'.PushOk := by
  have hstart {t : Tid} {pc : CallPc} (hpc : pc.pushes = false) {u : Tid}
      (hu : (Function.update x.calls t pc u).pushes = true) : x.table.freeSlots = [] := by
    by_cases hut : u = t
    · rw [hut, Function.update_self, hpc] at hu
      cases hu
    · rw [Function.update_of_ne hut] at hu
      exact hp u hu
  intro u hu
  cases a with
  | call t =>
    by_cases hut : u = t
    · subst hut
      rcases callStep_pushes hs hu with ⟨hpush, hf⟩ | hf
      · rw [hf]
        exact hp u hpush
      · exact hf
    · rw [callStep_calls hs hut] at hu
      -- the one that pushes has the write lock
      have hlock : (x.calls t).locked = false := by
        rw [Bool.eq_false_iff]
        intro ht
        have he := ((h.lock u).mpr (locked_of_pushes hu)).symm.trans ((h.lock t).mpr ht)
        exact hut (Option.some.inj he)
      rw [callStep_unlocked hlock hs]
      exact hp u hu
  | alloc | dealloc =>
    simp only [Slots.step] at hs
    split at hs <;> cases hs
    exact hstart rfl hu
  | deref | drop =>
    simp only [Slots.step] at hs
    split at hs <;> cases hs
    exact hp u hu
  | read g =>
    simp only [Slots.step] at hs
    split at hs
    · cases hs
    · obtain ⟨l, -, rfl⟩ := Option.map_eq_some_iff.mp hs
      exact hp u hu
  | store g i v =>
    simp only [Slots.step] at hs
    split at hs
    · split at hs <;> cases hs
      exact hp u hu
    · cases hs

end Slots
end TokioRcu
