import TokioRcu.LockOrder
import TokioRcu.Work

/-!
# How long a hook takes over the table

The ten accesses of a hook become at most twenty-two when the slots are a table:
an allocation that grows it takes ten where there was one, and the first access
through a guard takes two more, and one that drops the guard at last.
-/

namespace TokioRcu

/-- How many accesses are left of a call of `alloc` or `dealloc`. -/
def CallPc.left : CallPc → Nat
  | .idle => 0
  | .unlock => 1
  | .storeFree .. | .storeLen .. | .pushFree _ | .unlockCur => 2
  | .pushInPlace _ | .storeNone _ | .setCapacity _ => 3
  | .setLen .. | .deallocLock _ => 4
  | .setPtr .. => 5
  | .pushGrow _ | .lockCreate .. => 6
  | .lockGrow _ | .create _ => 7
  | .popFree _ => 8
  | .allocLock _ => 9

/-- How many accesses are left of a hook that has what it needs for the next one. -/
def Pc.tail : Pc → Nat
  | .alloc => 22
  | .markBusy => 14
  | .entryFence _ | .seeNewEpoch => 12
  | .seeEpoch _ | .dealloc => 11
  | .loadPrev _ => 9
  | .clearBusy | .publish _ _ | .storeSeen _ _ => 8
  | pc => pc.hops

namespace Backed

/-- The accesses that get thread `t` its guard for the next one, or drop it. -/
def handling (s : Backed) (t : Tid) : Nat :=
  if (s.core.threads t).pc.throughGuard then
    if hookGuard t ∉ s.slots.curDataLock.readers then 2
    else if s.slots.views (hookGuard t) = none then 1
    else 0
  else if hookGuard t ∈ s.slots.curDataLock.readers then 1
  else 0

/-- How many accesses are left of the hook that thread `t` is in. A call that
has not taken effect yet is followed by what follows its effect. -/
def left (s : Backed) (t : Tid) : Nat :=
  (s.slots.calls t).left +
    if (s.slots.calls t).initial.isSome then (Pc.entryFence .beforePoll).tail
    else if (s.slots.calls t).leaves.isSome then (Pc.notifyFence .stop).tail
    else (s.core.threads t).pc.tail + s.handling t

/-- Nothing is done to the hook of thread `t`. -/
structure Apart (s : Backed) (t : Tid) (s' : Backed) : Prop where
  calls : s'.slots.calls t = s.slots.calls t
  pc : (s'.core.threads t).pc = (s.core.threads t).pc
  reads : hookGuard t ∈ s'.slots.curDataLock.readers ↔ hookGuard t ∈ s.slots.curDataLock.readers
  view : s'.slots.views (hookGuard t) = s.slots.views (hookGuard t)

variable {cfg : Config} {tcfg : TableConfig} {s s' : Backed} {t u : Tid} {i : SlotId}

theorem Apart.left (h : s.Apart t s') : s'.left t = s.left t := by
  unfold Backed.left handling
  simp only [h.calls, h.pc, h.reads, h.view]

-- ---------------------------------------------------------------------------
-- What is left of a hook
-- ---------------------------------------------------------------------------

theorem left_idle (hidle : s.slots.calls t = .idle) :
    s.left t = (s.core.threads t).pc.tail + s.handling t := by
  simp [left, hidle, CallPc.left, CallPc.initial, CallPc.leaves]

theorem left_lt (hidle : s.slots.calls t = .idle) (hidle' : s'.slots.calls t = .idle)
    (h : (s'.core.threads t).pc.tail + s'.handling t < (s.core.threads t).pc.tail + s.handling t) :
    s'.left t < s.left t := by
  rwa [left_idle hidle, left_idle hidle']

/-- The guard, in the worst case. -/
theorem handling_le : s.handling t ≤ (if (s.core.threads t).pc.throughGuard then 2 else 0) +
    if hookGuard t ∈ s.slots.curDataLock.readers then 1 else 0 := by
  unfold handling
  split <;> split <;> (try split) <;> simp_all

theorem callStep_left (h : s.Handles) (hs : s.callStep tcfg t = some s') : s'.left t < s.left t := by
  obtain ⟨x, hx, rfl⟩ := Option.map_eq_some_iff.mp hs
  have hreaders := callStep_readers hx
  have hbusy : s.slots.calls t ≠ .idle := by
    intro he
    simp [Slots.callStep, he] at hx
  have hnot : hookGuard t ∉ s.slots.curDataLock.readers := fun hk => hbusy (h.hook t hk).1
  have hnot' : hookGuard t ∉ x.curDataLock.readers := by rwa [hreaders]
  have hgoto (y : Slots) (pc : CallPc) : (y.goto t pc).calls t = pc := by simp [Slots.goto]
  unfold left handling
  simp only [hnot, hnot', not_false_eq_true, if_true, if_false]
  cases hpc : s.slots.calls t <;> simp only [Slots.callStep, hpc, reduceCtorEq, Option.some.injEq] at hx
  case popFree =>
    split at hx
    · cases hx
      simp [hgoto, CallPc.left, CallPc.initial]
    · cases hx
      rw [hgoto]
      split <;> [skip; split] <;> simp [CallPc.left, CallPc.initial]
  case allocLock | deallocLock | pushInPlace | pushGrow =>
    split at hx <;> cases hx
    simp [hgoto, CallPc.left, CallPc.initial, CallPc.leaves]
  case lockCreate | lockGrow =>
    obtain ⟨l, -, rfl⟩ := Option.map_eq_some_iff.mp hx
    simp [hgoto, CallPc.left, CallPc.initial]
  all_goals
    subst hx
    simp [hgoto, CallPc.left, CallPc.initial, CallPc.leaves, Pc.throughGuard]

/-- A hook that goes on without the table. -/
theorem tail_lt {core : Core} (halloc : (s.core.threads t).pc ≠ .alloc)
    (hs : s.core.hookStep t = some core) (hslot : (s.core.threads t).pc.throughGuard = true ∨
      (s.core.threads t).pc = .dealloc → (s.core.threads t).slot = none) :
    (core.threads t).pc.tail + (if (core.threads t).pc.throughGuard then 2 else 0) <
      (s.core.threads t).pc.tail := by
  have hnone {pc : Pc} {i : SlotId} (hpc : (s.core.threads t).pc = pc)
      (hp : pc.throughGuard = true ∨ pc = .dealloc) (hi : (s.core.threads t).slot = some i) :
      False := by
    have hno := hslot (hp.imp (hpc ▸ ·) hpc.trans)
    rw [hi] at hno
    cases hno
  cases Core.hookStep_move hs with
  | dealloc hpc hi => exact (hnone hpc (.inr rfl) hi).elim
  | clearBusy hpc hi | markBusy hpc hi | publish hpc hi | loadPrev hpc hi | storeSeen hpc hi =>
    exact (hnone hpc (.inl rfl) hi).elim
  | alloc hpc => exact absurd hpc halloc
  | entryFence hpc | seeEpoch hpc | seeNewEpoch hpc => simp [hpc, Pc.tail, Pc.throughGuard]
  | panic hpc =>
    rw [Core.goto_pc]
    cases hp : (s.core.threads t).pc <;> rw [hp] at hpc <;>
      first | exact Nat.succ_pos _ | cases hpc
  | notify hn =>
    have hret (k : Hook) : k.ret.tail = 0 ∧ k.ret.throughGuard = false := by
      cases k <;> exact ⟨rfl, rfl⟩
    cases Core.hookStep_notify hs hn with
    | fence hpc | present hpc | inc hpc | found hpc | take hpc =>
      simp [hpc, Pc.tail, Pc.hops, Pc.left, Pc.throughGuard]
    | absent hpc | clear hpc =>
      rw [Core.goto_pc, (hret _).1, (hret _).2, hpc]
      exact Nat.succ_pos _
    | skip hpc =>
      rw [Core.goto_pc, (hret _).1, (hret _).2]
      rcases hpc with hpc | hpc <;> rw [hpc] <;> exact Nat.succ_pos _

theorem plain_left (hidle : s.slots.calls t = .idle) (halloc : (s.core.threads t).pc ≠ .alloc)
    (hguard : hookGuard t ∈ s.slots.curDataLock.readers → (s.core.threads t).pc.throughGuard = false)
    (hslot : (s.core.threads t).pc.throughGuard = true ∨ (s.core.threads t).pc = .dealloc →
      (s.core.threads t).slot = none)
    {core : Core} (hs : s.core.hookStep t = some core) : (s.withCore core).left t < s.left t := by
  have hlt := tail_lt halloc hs hslot
  have hle : (s.withCore core).handling t ≤
      (if (core.threads t).pc.throughGuard then 2 else 0) +
        if hookGuard t ∈ s.slots.curDataLock.readers then 1 else 0 := handling_le
  have hge : (if hookGuard t ∈ s.slots.curDataLock.readers then 1 else 0) ≤ s.handling t := by
    unfold handling
    split
    · rename_i hk
      simp [hguard hk]
    · exact Nat.zero_le _
  refine left_lt hidle hidle ?_
  calc (core.threads t).pc.tail + (s.withCore core).handling t
    _ < (s.core.threads t).pc.tail +
        if hookGuard t ∈ s.slots.curDataLock.readers then 1 else 0 := by omega
    _ ≤ (s.core.threads t).pc.tail + s.handling t := Nat.add_le_add_left hge _

theorem start_left (hidle : s.slots.calls t = .idle) {a : SlotsAct} {v : Nat}
    (ha : a = .alloc t v ∧ (s.core.threads t).pc = .alloc ∨
      a = .dealloc t i ∧ (s.core.threads t).pc = .dealloc)
    (hs : s.tableStep tcfg a = some s') : s'.left t < s.left t := by
  obtain ⟨x, hx, rfl⟩ := Option.map_eq_some_iff.mp hs
  rw [left_idle hidle]
  rcases ha with ⟨rfl, hpc⟩ | ⟨rfl, hpc⟩ <;> simp only [Slots.step, hidle, if_true] at hx <;>
    cases hx <;>
    simp [left, hpc, Slots.goto, CallPc.left, CallPc.initial, CallPc.leaves, Pc.tail, Pc.hops,
      Pc.left] <;> omega

theorem read_left (hidle : s.slots.calls t = .idle)
    (hk : hookGuard t ∉ s.slots.curDataLock.readers)
    (hthrough : (s.core.threads t).pc.throughGuard = true)
    (hs : s.tableStep tcfg (.read (hookGuard t)) = some s') : s'.left t < s.left t := by
  obtain ⟨x, hx, rfl⟩ := Option.map_eq_some_iff.mp hs
  simp only [Slots.step, if_neg hk] at hx
  obtain ⟨l, hl, rfl⟩ := Option.map_eq_some_iff.mp hx
  simp only [Lib.RwLock.read] at hl
  split at hl <;> cases hl
  refine left_lt hidle hidle (Nat.add_lt_add_left ?_ _)
  simp only [handling, hthrough, hk, not_false_eq_true, if_true, Finset.mem_insert, true_or,
    not_true_eq_false, if_false]
  split <;> decide

theorem deref_left (hidle : s.slots.calls t = .idle)
    (hk : hookGuard t ∈ s.slots.curDataLock.readers) (hv : s.slots.views (hookGuard t) = none)
    (hthrough : (s.core.threads t).pc.throughGuard = true)
    (hs : s.tableStep tcfg (.deref (hookGuard t)) = some s') : s'.left t < s.left t := by
  obtain ⟨x, hx, rfl⟩ := Option.map_eq_some_iff.mp hs
  simp only [Slots.step, if_pos hk, Option.some.injEq] at hx
  subst hx
  refine left_lt hidle hidle (Nat.add_lt_add_left ?_ _)
  simp [handling, hthrough, hk, hv]

theorem drop_left (hidle : s.slots.calls t = .idle)
    (hk : hookGuard t ∈ s.slots.curDataLock.readers)
    (hthrough : ¬ (s.core.threads t).pc.throughGuard = true)
    (hs : s.tableStep tcfg (.drop (hookGuard t)) = some s') : s'.left t < s.left t := by
  obtain ⟨x, hx, rfl⟩ := Option.map_eq_some_iff.mp hs
  simp only [Slots.step, if_pos hk, Option.some.injEq] at hx
  subst hx
  refine left_lt hidle hidle (Nat.add_lt_add_left ?_ _)
  simp [handling, hthrough, hk, Lib.RwLock.dropRead]

/-- An access through the guard. -/
theorem store_left (hidle : s.slots.calls t = .idle)
    (hk : hookGuard t ∈ s.slots.curDataLock.readers) {v : Nat} {pc : Pc}
    (hpc : pc.throughGuard = false) (htail : pc.tail + 1 < (s.core.threads t).pc.tail)
    (hs : s.storeStep tcfg t i v pc = some s') : s'.left t < s.left t := by
  obtain ⟨x, hx, rfl⟩ := Option.map_eq_some_iff.mp hs
  simp only [Slots.step] at hx
  split at hx
  · split at hx <;> cases hx
    refine left_lt hidle hidle ?_
    simp [handling, hpc, hk, Slots.publish]
    omega
  · cases hx

theorem access_left (hidle : s.slots.calls t = .idle) (hk : hookGuard t ∈ s.slots.curDataLock.readers)
    (hv : s.slots.views (hookGuard t) ≠ none) (hs : s.access tcfg t i = some s') :
    s'.left t < s.left t := by
  unfold Backed.access at hs
  cases hpc : (s.core.threads t).pc <;> simp only [hpc, reduceCtorEq] at hs
  case clearBusy =>
    obtain ⟨v, -, hs⟩ := Option.bind_eq_some_iff.mp hs
    exact store_left hidle hk rfl (by rw [hpc]; decide) hs
  case markBusy => exact store_left hidle hk rfl (by rw [hpc]; decide) hs
  case publish w e =>
    refine store_left hidle hk rfl ?_ hs
    rw [hpc]
    cases w <;> exact Nat.lt_succ_self _
  case loadPrev e =>
    obtain ⟨v, -, rfl⟩ := Option.map_eq_some_iff.mp hs
    refine left_lt hidle hidle ?_
    simp [handling, withCore, hpc, hk, hv, Pc.tail, Pc.throughGuard]
  case storeSeen e prev =>
    refine store_left hidle hk ?_ ?_ hs
    · split
      · split <;> rfl
      · rfl
    · rw [hpc]
      split
      · split <;> exact Nat.le_of_ble_eq_true rfl
      · exact Nat.le_of_ble_eq_true rfl

theorem hookStep_left (h : s.Handles) (hs : s.hookStep tcfg t = some s') : s'.left t < s.left t := by
  have hplain (hidle : s.slots.calls t = .idle) (halloc : (s.core.threads t).pc ≠ .alloc)
      (hguard : hookGuard t ∈ s.slots.curDataLock.readers →
        (s.core.threads t).pc.throughGuard = false)
      (hslot : (s.core.threads t).pc.throughGuard = true ∨ (s.core.threads t).pc = .dealloc →
        (s.core.threads t).slot = none)
      (hs : (s.core.hookStep t).map s.withCore = some s') : s'.left t < s.left t := by
    obtain ⟨core, hc, rfl⟩ := Option.map_eq_some_iff.mp hs
    exact plain_left hidle halloc hguard hslot hc
  unfold Backed.hookStep at hs
  split at hs
  · exact callStep_left h hs
  · rename_i hidle
    have hidle : s.slots.calls t = .idle := not_not.mp hidle
    split at hs
    · rename_i hpc
      exact start_left (i := 0) hidle (.inl ⟨rfl, hpc⟩) hs
    · rename_i halloc
      cases hi : (s.core.threads t).slot with
      | none =>
        simp only [hi] at hs
        refine hplain hidle halloc (fun hk => ?_) (fun _ => hi) hs
        have hsome := (h.hook t hk).2.1
        rw [hi] at hsome
        cases hsome
      | some i =>
        simp only [hi] at hs
        split at hs
        · rename_i hpc
          exact start_left (v := 0) hidle (.inr ⟨rfl, hpc⟩) hs
        · rename_i hdealloc
          split at hs
          · rename_i hthrough
            unfold guarded at hs
            split at hs
            · rename_i hk
              exact read_left hidle hk hthrough hs
            · rename_i hk
              have hk := not_not.mp hk
              split at hs
              · rename_i hv
                exact deref_left hidle hk hv hthrough hs
              · rename_i hv
                exact access_left hidle hk hv hs
          · rename_i hthrough
            split at hs
            · rename_i hk
              exact drop_left hidle hk.1 hthrough hs
            · exact hplain hidle halloc (fun _ => Bool.eq_false_iff.mpr hthrough)
                (fun hp => (hp.elim hthrough hdealloc).elim) hs

-- ---------------------------------------------------------------------------
-- The other threads, and the performer
-- ---------------------------------------------------------------------------

theorem Apart.guard {a : SlotsAct} {g : GuardId} {x : Slots} {core : Core}
    (ha : a = .read g ∨ a = .deref g ∨ a = .drop g) (hg : hookGuard u ≠ g)
    (hx : s.slots.step tcfg a = some x) (hpc : (core.threads u).pc = (s.core.threads u).pc) :
    s.Apart u ⟨core, x⟩ where
  calls := congrFun (GuardStep.of_step ha hx).calls u
  pc := hpc
  reads := by
    rcases ha with rfl | rfl | rfl
    · simp [(step_read hx).2, hg]
    · simp [step_deref hx]
    · simp [(step_drop hx).2, hg]
  view := ((GuardStep.of_step ha hx).view _).resolve_right fun hk => hg hk.1

theorem Apart.withCore {core : Core} (hpc : (core.threads u).pc = (s.core.threads u).pc) :
    s.Apart u (s.withCore core) :=
  ⟨rfl, hpc, .rfl, rfl⟩

theorem apart_store {v : Nat} {pc : Pc} (hu : u ≠ t) (hs : s.storeStep tcfg t i v pc = some s') :
    s.Apart u s' := by
  obtain ⟨x, hx, rfl⟩ := Option.map_eq_some_iff.mp hs
  simp only [Slots.step] at hx
  split at hx
  · split at hx <;> cases hx
    exact ⟨rfl, congrArg _ (Core.goto_ne _ _ _ hu), .rfl, rfl⟩
  · cases hx

theorem apart_access (hu : u ≠ t) (hs : s.access tcfg t i = some s') : s.Apart u s' := by
  unfold Backed.access at hs
  cases hpc : (s.core.threads t).pc <;> simp only [hpc, reduceCtorEq] at hs
  case clearBusy =>
    obtain ⟨v, -, hs⟩ := Option.bind_eq_some_iff.mp hs
    exact apart_store hu hs
  case markBusy | publish | storeSeen => exact apart_store hu hs
  case loadPrev =>
    obtain ⟨v, -, rfl⟩ := Option.map_eq_some_iff.mp hs
    exact .withCore (congrArg _ (Core.goto_ne _ _ _ hu))

theorem apart_call (hu : u ≠ t) (hs : s.callStep tcfg t = some s') : s.Apart u s' := by
  obtain ⟨x, hx, rfl⟩ := Option.map_eq_some_iff.mp hs
  refine ⟨Slots.callStep_calls hx hu, ?_, by rw [callStep_readers hx],
    congrFun (callStep_frame hx).views _⟩
  dsimp only
  split <;> first | exact congrArg _ (Core.setThread_ne _ _ _ hu) | rfl

theorem apart_start {a : SlotsAct} {v : Nat} (hu : u ≠ t) (ha : a = .alloc t v ∨ a = .dealloc t i)
    (hs : s.tableStep tcfg a = some s') : s.Apart u s' := by
  obtain ⟨x, hx, rfl⟩ := Option.map_eq_some_iff.mp hs
  rcases ha with rfl | rfl <;> simp only [Slots.step] at hx <;> split at hx <;> cases hx <;>
    exact ⟨Function.update_of_ne hu _ _, rfl, .rfl, rfl⟩

theorem core_hookStep_threads {core : Core} (hu : u ≠ t) (hs : s.core.hookStep t = some core) :
    core.threads u = s.core.threads u := by
  cases Core.hookStep_move hs with
  | notify _ _ hf => rw [hf.threads, Core.goto_ne _ _ _ hu]
  | alloc =>
    unfold Core.allocSlot
    split <;> exact Core.setThread_ne _ _ _ hu
  | dealloc => exact Core.setThread_ne _ _ _ hu
  | _ => exact Core.goto_ne _ _ _ hu

/-- A hook leaves the hooks of the other threads alone. -/
theorem apart_hook (hu : u ≠ t) (hs : s.hookStep tcfg t = some s') : s.Apart u s' := by
  have hguard {a : SlotsAct} (ha : a = .read (hookGuard t) ∨ a = .deref (hookGuard t) ∨
      a = .drop (hookGuard t)) (hs : s.tableStep tcfg a = some s') : s.Apart u s' := by
    obtain ⟨x, hx, rfl⟩ := Option.map_eq_some_iff.mp hs
    exact .guard ha (fun he => hu (hookGuard_inj he)) hx rfl
  have hplain (hs : (s.core.hookStep t).map s.withCore = some s') : s.Apart u s' := by
    obtain ⟨core, hc, rfl⟩ := Option.map_eq_some_iff.mp hs
    exact .withCore (congrArg _ (core_hookStep_threads hu hc))
  unfold Backed.hookStep at hs
  split at hs
  · exact apart_call hu hs
  · split at hs
    · exact apart_start (i := 0) hu (.inl rfl) hs
    · split at hs
      · split at hs
        · exact apart_start (v := 0) hu (.inr rfl) hs
        · split at hs
          · unfold guarded at hs
            split at hs
            · exact hguard (.inl rfl) hs
            · split at hs
              · exact hguard (.inr (.inl rfl)) hs
              · exact apart_access hu hs
          · split at hs
            · exact hguard (.inr (.inr rfl)) hs
            · exact hplain hs
      · exact hplain hs

theorem apart_gp {g : Gp} (hs : s.gpStep cfg tcfg g = some s') : s.Apart u s' := by
  have hguard {a : SlotsAct} (ha : a = .read scanGuard ∨ a = .deref scanGuard ∨ a = .drop scanGuard)
      {x : Slots} (hx : s.slots.step tcfg a = some x) {core : Core}
      (hthreads : core.threads = s.core.threads) : s.Apart u ⟨core, x⟩ :=
    .guard ha hookGuard_ne_scanGuard hx (by rw [hthreads])
  have hplain (hs : (s.core.gpStep cfg g).map s.withCore = some s') : s.Apart u s' := by
    obtain ⟨core, hc, rfl⟩ := Option.map_eq_some_iff.mp hs
    exact .withCore (by rw [(Core.gpStep_move hc).2.threads])
  unfold Backed.gpStep at hs
  split at hs
  · split at hs
    · split at hs <;> obtain ⟨x, hx, rfl⟩ := Option.map_eq_some_iff.mp hs
      · exact hguard (.inl rfl) hx rfl
      · exact hguard (.inr (.inl rfl)) hx rfl
    · exact hplain hs
  · split at hs
    · obtain ⟨v, -, rfl⟩ := Option.map_eq_some_iff.mp hs
      exact .withCore rfl
    · exact hplain hs
  · split at hs
    · obtain ⟨x, hx, rfl⟩ := Option.map_eq_some_iff.mp hs
      exact hguard (.inr (.inr rfl)) hx rfl
    · exact hplain hs

/-- Of what users do, only the call of a hook changes what is left of one. -/
theorem apart_user {a : Act} (hs : s.act cfg tcfg a = some s') (hhook : ∀ t, a ≠ .hook t)
    (hgp : a ≠ .gp) (hcall : ∀ k, a ≠ .call u k) : s.Apart u s' := by
  have hplain {t : Tid} {o : Option Core}
      (hc : ∀ core, o = some core → (core.threads u).pc = (s.core.threads u).pc)
      (hs : (if s.outside t = true then o.map s.withCore else none) = some s') : s.Apart u s' := by
    split at hs
    · obtain ⟨core, ho, rfl⟩ := Option.map_eq_some_iff.mp hs
      exact .withCore (hc core ho)
    · cases hs
  have hsection {t : Tid} {o : List Nat} :
      ((s.core.setThread t { s.core.threads t with sections := o }).threads u).pc =
        (s.core.threads u).pc := by
    by_cases hut : u = t
    · subst hut
      simp [Core.setThread]
    · rw [Core.setThread_ne _ _ _ hut]
  cases a with
  | hook t => exact absurd rfl (hhook t)
  | gp => exact absurd rfl hgp
  | other =>
    cases hs
    exact .withCore rfl
  | call t k =>
    refine hplain (fun core ho => ?_) hs
    have hut : u ≠ t := by
      rintro rfl
      exact hcall k rfl
    simp only [Core.act] at ho
    split at ho <;> cases ho
    cases k <;> exact congrArg _ (Core.goto_ne _ _ _ hut)
  | openSection t =>
    refine hplain (fun core ho => ?_) hs
    simp only [Core.act, Core.enterSection] at ho
    split at ho
    · split at ho <;> cases ho
      exact hsection
    · cases ho
  | closeSection t =>
    refine hplain (fun core ho => ?_) hs
    simp only [Core.act, Core.exitSection] at ho
    split at ho
    · split at ho <;> cases ho
      exact hsection
    · cases ho
  | begin t w =>
    refine hplain (fun core ho => ?_) hs
    simp only [Core.act, Core.beginGp] at ho
    split at ho
    · split at ho <;> cases ho
      rfl
    · cases ho
  | poll t w =>
    refine hplain (fun core ho => ?_) hs
    simp only [Core.act, Core.pollGp] at ho
    split at ho
    · split at ho <;> cases ho
      rfl
    · cases ho
  | abandon =>
    obtain ⟨core, ho, rfl⟩ := Option.map_eq_some_iff.mp hs
    simp only [Core.act, Core.abandonGp] at ho
    split at ho <;> cases ho
    exact .withCore rfl

-- ---------------------------------------------------------------------------
-- The accesses of a run
-- ---------------------------------------------------------------------------

theorem call_left {k : Hook} (hs : s.act cfg tcfg (.call t k) = some s') : s'.left t ≤ 22 := by
  simp only [Backed.act] at hs
  split at hs
  · rename_i hout
    obtain ⟨core, ho, rfl⟩ := Option.map_eq_some_iff.mp hs
    obtain ⟨hidle, hguard⟩ := outside_iff.mp hout
    simp only [Core.act] at ho
    split at ho <;> cases ho
    have hleft : (s.withCore (s.core.callHook t k)).left t = _ := left_idle hidle
    rw [hleft]
    have hle : (s.withCore (s.core.callHook t k)).handling t ≤
        (if ((s.core.callHook t k).threads t).pc.throughGuard then 2 else 0) +
          if hookGuard t ∈ s.slots.curDataLock.readers then 1 else 0 := handling_le
    rw [if_neg hguard] at hle
    refine (Nat.add_le_add_left hle _).trans ?_
    change ((s.core.callHook t k).threads t).pc.tail + _ ≤ 22
    cases k <;> simp only [Core.callHook, Core.goto_pc] <;> (try split) <;> decide
  · cases hs

/-- The hooks of a run over the table, and the accesses they have made. -/
def overTable (cfg : Config) (tcfg : TableConfig) : Lib.Machine (Backed × WorkLog) Act :=
  (backedMachine cfg tcfg).track .new fun l s a => l.next s.abs a

/-- What is left of the hooks is paid for by their calls. -/
def Paid (s : Backed) (l : WorkLog) : Prop :=
  ∀ t, l.accesses.count t + s.left t ≤ 22 * l.called.count t

theorem paid_step {l : WorkLog} {a : Act} (h : s.Handles) (hp : s.Paid l)
    (hs : s.act cfg tcfg a = some s') : s'.Paid (l.next s.abs a) := by
  intro u
  have hpaid := hp u
  have hapart (ha : s.Apart u s') (hlog : (l.next s.abs a).accesses.count u = l.accesses.count u ∧
      l.called.count u = (l.next s.abs a).called.count u) :
      (l.next s.abs a).accesses.count u + s'.left u ≤ 22 * (l.next s.abs a).called.count u := by
    rwa [ha.left, hlog.1, ← hlog.2]
  cases a with
  | hook t =>
    by_cases hu : u = t
    · subst hu
      have hlt := hookStep_left h hs
      simp only [WorkLog.next, List.count_cons_self]
      omega
    · exact hapart (apart_hook hu hs) ⟨List.count_cons_of_ne (Ne.symm hu), rfl⟩
  | gp =>
    obtain ⟨g, -, hs⟩ := Option.bind_eq_some_iff.mp hs
    exact hapart (apart_gp hs) ⟨rfl, rfl⟩
  | call t k =>
    by_cases hu : u = t
    · subst hu
      have hle := call_left hs
      simp only [WorkLog.next, List.count_cons_self]
      omega
    · refine hapart (apart_user hs (by simp) (by simp) fun _ he => hu ?_)
        ⟨rfl, (List.count_cons_of_ne (Ne.symm hu)).symm⟩
      cases he
      rfl
  | openSection | closeSection | begin | poll | abandon | other =>
    exact hapart (apart_user hs (by simp) (by simp) (by simp)) ⟨rfl, rfl⟩

theorem paid_initial (hcore : s.core.Initial cfg) (hslots : s.slots = .new) : s.Paid .new := by
  intro t
  obtain ⟨core, slots⟩ := s
  obtain rfl : slots = .new := hslots
  replace hcore : core.Initial cfg := hcore
  have hpc : (core.threads t).pc = .idle := by
    rw [hcore.eq]
    rfl
  rw [left_idle (s := ⟨core, .new⟩) rfl]
  simp [handling, hpc, WorkLog.new, Pc.tail, Pc.hops, Pc.throughGuard, Slots.new,
    Lib.RwLock.unlocked]

theorem paid_of_reach {ok : Backed × WorkLog → Act → Prop} {x : Backed × WorkLog}
    (h : (overTable cfg tcfg).Reach ok x) : x.1.Paid x.2 := by
  refine h.induct (I := fun x => x.1.Paid x.2) ?_ ?_
  · rintro ⟨s, l⟩ ⟨⟨hcore, hslots⟩, rfl⟩
    exact paid_initial hcore hslots
  · intro x a x' hr ih _ hs
    obtain ⟨hs, hl⟩ := Lib.Machine.track_step.mp hs
    obtain ⟨s₁, hact, he⟩ := Option.map_eq_some_iff.mp hs
    have hreach : (backedMachine cfg tcfg).Reach (fun _ _ => True) x.1 :=
      hr.of_track fun _ _ _ => trivial
    have hpaid : s₁.Paid (x.2.next x.1.abs a) := paid_step (handles_of_reach hreach) ih hact
    rw [hl, ← he]
    exact hpaid

/-- A hook makes at most twenty-two accesses over the table, whatever the
others do and in whatever order it is called. -/
theorem hook_accesses_bounded {ok : Backed × WorkLog → Act → Prop} {x : Backed × WorkLog}
    (h : (overTable cfg tcfg).Reach ok x) (t : Tid) :
    x.2.accesses.count t ≤ 22 * x.2.called.count t := by
  have hpaid := paid_of_reach h t
  exact (Nat.le_add_right _ _).trans hpaid

/-- The call that grows the buffer, and then wakes the subscriber, takes as many. -/
theorem hook_accesses_bounded_growing : ∃ x : Backed × WorkLog,
    x.2.called.count 2 = 1 ∧ x.1.slots.table.len = 3 ∧ x.2.accesses.count 2 = 22 ∧
    x.2.accesses.count 2 ≤ 22 * x.2.called.count 2 := by
  let hook (n : Nat) (t : Tid) : List Act := List.replicate n (.hook t)
  obtain ⟨x, hx, hp⟩ := Lib.Machine.exists_of_runIf (M := overTable .testMode (.of 1))
    (fun x a => Orderly x.1.abs a)
    (.call 0 .beforePoll :: hook 18 0 ++ .call 1 .beforePoll :: hook 14 1 ++
      [.openSection 1, .begin 0 7] ++ List.replicate 9 .gp ++ .call 2 .beforePoll :: hook 3 2 ++
      List.replicate 3 .gp ++ hook 19 2)
    (fun x => x.2.called.count 2 == 1 && x.1.slots.table.len == 3 && x.2.accesses.count 2 == 22)
    (s := (⟨.initial 4, .new⟩, .new)) ⟨⟨⟨by decide, by decide, rfl⟩, rfl⟩, rfl⟩ (by decide +kernel)
  simp only [Bool.and_eq_true, beq_iff_eq] at hp
  obtain ⟨⟨hcalled, hlen⟩, hacc⟩ := hp
  exact ⟨x, hcalled, hlen, hacc, hook_accesses_bounded hx 2⟩

end Backed
end TokioRcu
