import TokioRcu.ReadLock

/-!
# What a live slot can hold

Zero means vacant, and it is also what "busy, still fetching" becomes without
its busy bit. From the allocation of a slot to its deallocation only its owner
writes it, and never a zero; so none of the checks that the hooks make on
encoded states can fail.
-/

namespace TokioRcu

/-- Between the state change of `on_thread_park` and the first store of `on_thread_unpark`. -/
def Pc.asleep : Pc → Bool
  | .parked | .markBusy => true
  | pc => pc.notifying == some .park

/-- Inside of `on_before_task_poll` or `on_thread_unpark`, before the epoch id is published. -/
def Pc.fetching : Pc → Bool
  | .entryFence _ | .seeEpoch _ | .publish _ _ => true
  | _ => false

/-- The thread state that the next access encodes. -/
def Pc.encodes : Pc → Option ThreadState
  | .alloc | .markBusy => some { lastSeenEpochId := 0, isBusy := true }
  | .publish _ e | .storeSeen e _ => some { lastSeenEpochId := e, isBusy := true }
  | _ => none

/-- The debug assertions of `ThreadState::encode`, and that the result fits its type. -/
structure ThreadState.EncodeOk (cfg : Config) (st : ThreadState) : Prop where
  even : st.lastSeenEpochId &&& 1 = 0
  occupied : st.encode ≠ noneEncodedValue
  fits : st.encode < 2 ^ cfg.epochIdBits

/-- What a live slot holds while its owner is at `pc`. -/
structure Pc.StateOk (cfg : Config) (pc : Pc) (st : ThreadState) : Prop where
  busy : st.isBusy = true ↔ pc.asleep = false
  fetching : pc.fetching = true → st.lastSeenEpochId = 0
  seen : pc.fetching = false → cfg.ValidEpochId st.lastSeenEpochId

namespace Core

/-- The slot that an act stores to. -/
def stores (s : Core) : Act → Option SlotId
  | .hook t =>
    match (s.threads t).pc with
    | .dealloc | .clearBusy | .markBusy | .publish _ _ | .storeSeen _ _ => (s.threads t).slot
    | .alloc => some (s.freeSlots.headD s.len)
    | _ => none
  | _ => none

/-- The atomic swap of a slot: the value it returns, and the state it leaves. -/
def swapState (s : Core) (i : SlotId) (v : Nat) : Nat × Core := (s.slots i, s.storeState i v)

structure SlotStates (cfg : Config) (s : Core) : Prop where
  /-- Only its owner stores to a live slot, and no other access changes a slot. -/
  writer : ∀ a i t, s.stores a = some i → (s.threads t).slot = some i → a = .hook t
  frame : ∀ a s' i, s.step cfg a = some s' → s.stores a ≠ some i → s'.slots i = s.slots i
  occupied : ∀ t i, (s.threads t).slot = some i → s.slots i ≠ ThreadState.noneEncodedValue
  decodes : ∀ t i, (s.threads t).slot = some i →
    ∃ st, ThreadState.decode (s.slots i) = some st ∧ (s.threads t).pc.StateOk cfg st
  /-- The `unwrap`s and the assertion of the hooks. -/
  no_panic : ∀ t, (s.threads t).pc ≠ .panicked
  /-- The `unwrap` of the scan, in a performer that a task polls. -/
  polled : ∀ g ∈ s.gp, ∀ t, g.runner = some t → (s.threads t).pc = .polling → s.tracked t = true
  encode : ∀ t st, (s.threads t).pc.encodes = some st → st.EncodeOk cfg
  swap : ∀ t e prev, (s.threads t).pc = .storeSeen e prev → ∃ i, (s.threads t).slot = some i ∧
    ∀ s', s.hookStep t = some s' →
      prev = (s.swapState i (busyAt e)).1 ∧ s'.slots = (s.swapState i (busyAt e)).2.slots

variable {cfg : Config} {s s' : Core} {t : Tid}

-- ---------------------------------------------------------------------------
-- Who writes
-- ---------------------------------------------------------------------------

theorem stores_eq_some {a : Act} {i : SlotId} (h : s.stores a = some i) :
    ∃ t, a = .hook t ∧ ((s.threads t).slot = some i ∨
      ((s.threads t).pc = .alloc ∧ i = s.freeSlots.headD s.len)) := by
  cases a with
  | hook t =>
    refine ⟨t, rfl, ?_⟩
    unfold stores at h
    cases hpc : (s.threads t).pc <;> simp only [hpc, reduceCtorEq] at h
    case alloc => exact .inr ⟨rfl, (Option.some.inj h).symm⟩
    all_goals exact .inl h
  | call | openSection | closeSection | begin | poll | gp | abandon | other => cases h

/-- The slot that is handed out next belongs to nobody. -/
theorem Inv.alloc_fresh (h : s.Inv cfg) (hi : (s.threads t).slot = some i) :
    i ≠ s.freeSlots.headD s.len := by
  obtain ⟨hlt, hfree⟩ := h.live t i hi
  cases hf : s.freeSlots with
  | nil => exact Nat.ne_of_lt hlt
  | cons j rest =>
    rintro rfl
    exact hfree (hf ▸ List.mem_cons_self)

theorem Inv.writer (h : s.Inv cfg) {a : Act} {i : SlotId} (ha : s.stores a = some i)
    (hi : (s.threads t).slot = some i) : a = .hook t := by
  obtain ⟨u, rfl, hown | ⟨-, hnew⟩⟩ := stores_eq_some ha
  · rw [h.owner u t i hown hi]
  · exact absurd hnew (h.alloc_fresh hi)

theorem hook_frame {i : SlotId} (hm : HookMove s t s') (hi : s.stores (.hook t) ≠ some i) :
    s'.slots i = s.slots i := by
  unfold stores at hi
  cases hm with
  | dealloc hpc hslot =>
    simp only [hpc, hslot] at hi
    exact storeState_ne _ _ _ fun he => hi (he ▸ rfl)
  | clearBusy hpc hslot | markBusy hpc hslot | publish hpc hslot | storeSeen hpc hslot =>
    simp only [hpc, hslot] at hi
    exact storeState_ne _ _ _ fun he => hi (he ▸ rfl)
  | alloc hpc =>
    simp only [hpc] at hi
    unfold allocSlot
    cases hf : s.freeSlots with
    | nil =>
      rw [hf] at hi
      exact storeState_ne _ _ _ fun he => hi (he ▸ rfl)
    | cons j rest =>
      rw [hf] at hi
      exact storeState_ne _ _ _ fun he => hi (he ▸ rfl)
  | entryFence | seeEpoch | seeNewEpoch | loadPrev | panic => rfl
  | notify _ _ hf => rw [hf.slots]

theorem step_frame {a : Act} {i : SlotId} (hs : s.step cfg a = some s') (hi : s.stores a ≠ some i) :
    s'.slots i = s.slots i := by
  obtain ⟨s₁, rfl, hm⟩ := step_move hs
  show s₁.slots i = s.slots i
  cases hm with
  | @call u h => cases h <;> rfl
  | hook _ hm => exact hook_frame hm hi
  | gp _ _ _ hf => rw [hf.slots]
  | openSection | closeSection | begin | poll | abandon | other => rfl

-- ---------------------------------------------------------------------------
-- What it holds
-- ---------------------------------------------------------------------------

end Core

theorem Pc.Allows.of_fetching {pc : Pc} (ha : pc.Allows .fetching) :
    pc.asleep = false ∧ pc.fetching = true := by
  cases pc <;> simp only [Pc.Allows, reduceCtorEq, or_self] at ha
  case entryFence | seeEpoch | publish => exact ⟨rfl, rfl⟩
  all_goals rename_i h; cases h <;> cases ha

theorem Pc.Allows.of_online {pc : Pc} (ha : pc.Allows .online) :
    pc.asleep = false ∧ pc.fetching = false := by
  cases pc <;> simp only [Pc.Allows, reduceCtorEq, or_self] at ha
  case idle | polling | dealloc | clearBusy | seeNewEpoch | loadPrev | storeSeen => exact ⟨rfl, rfl⟩
  all_goals rename_i h; cases h <;> first | exact ⟨rfl, rfl⟩ | cases ha

theorem Pc.Allows.of_offline {pc : Pc} (ha : pc.Allows .offline) :
    pc.asleep = true ∧ pc.fetching = false := by
  cases pc <;> simp only [Pc.Allows, reduceCtorEq, or_self] at ha
  case parked | markBusy => exact ⟨rfl, rfl⟩
  all_goals rename_i h; cases h <;> first | exact ⟨rfl, rfl⟩ | cases ha

theorem ThreadOk.decodes {slots : SlotId → Nat} {th : Thread} (h : ThreadOk cfg slots th)
    (hi : th.slot = some i) :
    ∃ st, ThreadState.decode (slots i) = some st ∧ th.pc.StateOk cfg st := by
  obtain ⟨sh, ha, hh⟩ := h.shape
  cases sh with
  | absent => cases hi.symm.trans hh
  | fetching =>
    obtain ⟨j, hj, hv⟩ := hh
    obtain ⟨hawake, hfetch⟩ := ha.of_fetching
    cases hi.symm.trans hj
    refine ⟨⟨0, true⟩, by rw [hv, decode_busyFetching], by simp [hawake], fun _ => rfl, ?_⟩
    intro hf
    cases hfetch.symm.trans hf
  | online =>
    obtain ⟨j, e, hj, he, hv⟩ := hh
    obtain ⟨hawake, hfetch⟩ := ha.of_online
    cases hi.symm.trans hj
    refine ⟨⟨e, true⟩, by rw [hv, decode_busyAt he.even], by simp [hawake], ?_, fun _ => he⟩
    intro hf
    cases hfetch.symm.trans hf
  | offline =>
    obtain ⟨j, e, hj, he, hv⟩ := hh
    obtain ⟨hasleep, hfetch⟩ := ha.of_offline
    have hne : e ≠ 0 := Nat.ne_of_gt (Nat.lt_of_lt_of_le (by decide) he.min_le)
    cases hi.symm.trans hj
    refine ⟨⟨e, false⟩, by rw [hv, decode_even he.even hne], by simp [hasleep], ?_, fun _ => he⟩
    intro hf
    cases hfetch.symm.trans hf

theorem encodeOk_fetching (cfg : Config) : ThreadState.EncodeOk cfg ⟨0, true⟩ := by
  have hfits : 1 < 2 ^ cfg.epochIdBits := Nat.one_lt_two_pow (by have := cfg.epochIdBits_ge; omega)
  exact ⟨rfl, by decide, hfits⟩

theorem Config.ValidEpochId.encodeOk {cfg : Config} (he : cfg.ValidEpochId e) :
    ThreadState.EncodeOk cfg ⟨e, true⟩ := by
  have henc : ThreadState.encode ⟨e, true⟩ = e + 1 := busyAt_eq he.even
  have hle : e ≤ 2 ^ cfg.epochIdBits - 1 - 1 := he.le_max
  have hmin : 2 ≤ e := he.min_le
  refine ⟨?_, ?_, ?_⟩
  · rw [Nat.and_one_is_mod]
    exact he.even
  · rw [henc]
    exact Nat.succ_ne_zero e
  · rw [henc]
    omega

theorem ThreadOk.encodeOk {slots : SlotId → Nat} {th : Thread} (h : ThreadOk cfg slots th)
    (he : th.pc.encodes = some st) : st.EncodeOk cfg := by
  have hloaded := h.loaded
  cases hpc : th.pc <;> simp only [hpc, Pc.encodes, Option.some.injEq, reduceCtorEq] at he
  case alloc | markBusy => exact he ▸ encodeOk_fetching cfg
  case publish w e => exact he ▸ (hloaded e (by rw [hpc]; rfl)).encodeOk
  case storeSeen e prev => exact he ▸ (hloaded e (by rw [hpc]; rfl)).encodeOk

namespace Core

variable {cfg : Config} {s s' : Core} {t : Tid}

theorem Inv.tracked_of_polling (h : s.Inv cfg) (hpc : (s.threads t).pc = .polling) :
    s.tracked t = true := by
  have hon : Shape.online.Holds cfg s.slots (s.threads t).slot :=
    (h.thread t).holds .online fun sh ha => by rw [hpc] at ha; exact ha
  exact hon.isSome_iff.mpr nofun

/-- The load and the store of `on_after_task_poll` are one swap. -/
theorem Inv.swap (h : s.Inv cfg) {e prev : Nat} (hpc : (s.threads t).pc = .storeSeen e prev) :
    ∃ i, (s.threads t).slot = some i ∧ ∀ s', s.hookStep t = some s' →
      prev = (s.swapState i (busyAt e)).1 ∧ s'.slots = (s.swapState i (busyAt e)).2.slots := by
  obtain ⟨i, hi, hprev⟩ := (h.thread t).prev e prev hpc
  refine ⟨i, hi, fun s' hs => ⟨hprev.symm, ?_⟩⟩
  simp only [hookStep, hpc, withSlot, hi, Option.some.injEq] at hs
  subst hs
  rfl

/-- Whatever the order of the steps, as long as every thread goes through its
hooks in tokio's order. -/
theorem slot_states_valid (h : (machine cfg).Reach TokioOrder s) : s.SlotStates cfg := by
  have hinv : s.Inv cfg := inv_inductive.reach h
  constructor
  · exact fun a i t ha hi => hinv.writer ha hi
  · exact fun a s' i hs hi => step_frame hs hi
  · intro t i hi hv
    obtain ⟨st, hst, -⟩ := (hinv.thread t).decodes hi
    rw [hv, decode_vacant] at hst
    cases hst
  · exact fun t i hi => (hinv.thread t).decodes hi
  · exact hinv.not_panicked
  · exact fun g _ t _ hpc => hinv.tracked_of_polling hpc
  · exact fun t st he => (hinv.thread t).encodeOk he
  · exact fun t e prev hpc => hinv.swap hpc

end Core

/-- A thread that has parked after its first poll, and is marked as busy again. -/
theorem slot_states_valid_unpark : ∃ s : Core, s.SlotStates Config.testMode ∧
    (s.threads 0).pc = .entryFence .unpark ∧ s.slots 0 = busyFetching := by
  have hinit : (machine Config.testMode).init (Core.initial 4) := ⟨by decide, by decide, rfl⟩
  obtain ⟨s, hs, hp⟩ := Lib.Machine.exists_of_runIf TokioOrder
    (Act.firstPoll 0 ++ [.call 0 .afterPoll, .hook 0, .hook 0, .hook 0, .call 0 .park, .hook 0,
      .hook 0, .hook 0, .call 0 .unpark, .hook 0])
    (fun s => (s.threads 0).pc == .entryFence .unpark && s.slots 0 == busyFetching) hinit (by decide)
  simp only [Bool.and_eq_true, beq_iff_eq] at hp
  exact ⟨s, Core.slot_states_valid hs, hp.1, hp.2⟩

end TokioRcu
