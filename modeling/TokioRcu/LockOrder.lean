import TokioRcu.Alone
import TokioRcu.BackedRefinement

/-!
# The order of the locks

A thread in a hook may wait for the write lock of the table, for the lock of
its current data, or for `SUBSCRIBER_INFO`, and `on_thread_unpark` waits for the
last with a read guard in its hands. They are taken in this order, so that
whoever waits, waits for somebody who can go on: no thread that allocates or
frees a slot has a guard, and no guard is left behind by its hook or its scan.
-/

namespace TokioRcu

theorem Hook.ret_ne_dealloc (k : Hook) : k.ret ≠ .dealloc := by cases k <;> simp [Hook.ret]

namespace Backed

/-- Thread `t` has been called and has not returned yet, or has not dropped its guard. -/
def inHook (s : Backed) (t : Tid) : Bool := !s.outside t || (s.core.threads t).pc.hook.isSome

/-- A poll of the performer is under way. -/
def polling (s : Backed) : Bool := s.core.gp.any fun g => g.runner.isSome && !g.pc.asleep

/-- A thread in a hook, or the performer that is polled, can make its next access. -/
def CanGoOn (cfg : Config) (tcfg : TableConfig) (s : Backed) : Prop :=
  (∃ t, s.inHook t = true ∧ ∃ s', (backedMachine cfg tcfg).step s (.hook t) = some s') ∨
    s.polling = true ∧ ∃ s', (backedMachine cfg tcfg).step s .gp = some s'

/-- The guards are where their owners need them. -/
structure Handles (s : Backed) : Prop where
  hook : ∀ t, hookGuard t ∈ s.slots.curDataLock.readers → s.slots.calls t = .idle ∧
    (s.core.threads t).slot.isSome = true ∧
    (s.core.threads t).pc ≠ .alloc ∧ (s.core.threads t).pc ≠ .dealloc
  scan : scanGuard ∈ s.slots.curDataLock.readers → s.polling = true

variable {cfg : Config} {tcfg : TableConfig} {s s' : Backed} {t u : Tid} {i : SlotId}

-- ---------------------------------------------------------------------------
-- The guards
-- ---------------------------------------------------------------------------

theorem callStep_readers {x x' : Slots} (hs : x.callStep tcfg t = some x') :
    x'.curDataLock.readers = x.curDataLock.readers := by
  have hwrite {l : Lib.RwLock Nat} (hl : x.curDataLock.write t = some l) :
      l.readers = x.curDataLock.readers := by
    simp only [Lib.RwLock.write] at hl
    split at hl <;> cases hl
    rfl
  cases hpc : x.calls t <;> simp only [Slots.callStep, hpc, reduceCtorEq, Option.some.injEq] at hs
  case popFree => split at hs <;> cases hs <;> rfl
  case allocLock | deallocLock | pushInPlace | pushGrow =>
    split at hs <;> cases hs
    rfl
  case lockCreate | lockGrow =>
    obtain ⟨l, hl, rfl⟩ := Option.map_eq_some_iff.mp hs
    exact hwrite hl
  all_goals
    subst hs
    rfl

theorem step_read {x x' : Slots} {g : GuardId} (hs : x.step tcfg (.read g) = some x') :
    g ∉ x.curDataLock.readers ∧ x'.curDataLock.readers = insert g x.curDataLock.readers := by
  simp only [Slots.step] at hs
  split at hs
  · cases hs
  · rename_i hg
    obtain ⟨l, hl, rfl⟩ := Option.map_eq_some_iff.mp hs
    simp only [Lib.RwLock.read] at hl
    split at hl <;> cases hl
    exact ⟨hg, rfl⟩

theorem step_deref {x x' : Slots} {g : GuardId} (hs : x.step tcfg (.deref g) = some x') :
    x'.curDataLock.readers = x.curDataLock.readers := by
  simp only [Slots.step] at hs
  split at hs <;> cases hs
  rfl

theorem step_drop {x x' : Slots} {g : GuardId} (hs : x.step tcfg (.drop g) = some x') :
    g ∈ x.curDataLock.readers ∧ x'.curDataLock.readers = x.curDataLock.readers.erase g := by
  simp only [Slots.step] at hs
  split at hs
  · rename_i hg
    cases hs
    exact ⟨hg, rfl⟩
  · cases hs

/-- What an operation of guard `g` does to the guards. -/
theorem guard_readers {x x' : Slots} {a : SlotsAct} {g : GuardId}
    (ha : a = .read g ∨ a = .deref g ∨ a = .drop g) (hs : x.step tcfg a = some x') :
    ∀ k, k ∈ x'.curDataLock.readers → k ∈ x.curDataLock.readers ∨ a = .read g ∧ k = g := by
  intro k hk
  rcases ha with rfl | rfl | rfl
  · rw [(step_read hs).2] at hk
    exact (Finset.mem_insert.mp hk).symm.imp_right fun he => ⟨rfl, he⟩
  · rw [step_deref hs] at hk
    exact .inl hk
  · rw [(step_drop hs).2] at hk
    exact .inl (Finset.mem_of_mem_erase hk)

theorem polling_of_place (hp : s'.core.gp.map Gp.place = s.core.gp.map Gp.place)
    (h : s.polling = true) : s'.polling = true := by
  have hany (o : Option Gp) : (o.any fun g => g.runner.isSome && !g.pc.asleep) =
      (o.map Gp.place).any fun p => p.2.1.isSome && !p.1.asleep := by
    cases o <;> rfl
  unfold polling at *
  rw [hany] at h ⊢
  exact (congrArg (Option.any _) hp).trans h

/-- Only thread `t` moves, and takes no guard but its own. -/
theorem Handles.update (h : s.Handles)
    (hcalls : ∀ u, u ≠ t → s'.slots.calls u = s.slots.calls u)
    (hthreads : ∀ u, u ≠ t → s'.core.threads u = s.core.threads u)
    (hreaders : ∀ k, k ∈ s'.slots.curDataLock.readers → k ∈ s.slots.curDataLock.readers ∨
      k = hookGuard t)
    (hself : hookGuard t ∈ s'.slots.curDataLock.readers → s'.slots.calls t = .idle ∧
      (s'.core.threads t).slot.isSome = true ∧
      (s'.core.threads t).pc ≠ .alloc ∧ (s'.core.threads t).pc ≠ .dealloc)
    (hplace : s'.core.gp.map Gp.place = s.core.gp.map Gp.place) : s'.Handles where
  hook u hu := by
    by_cases hut : u = t
    · subst hut
      exact hself hu
    · rw [hcalls u hut, hthreads u hut]
      exact h.hook u ((hreaders _ hu).resolve_right fun he => hut (hookGuard_inj he))
  scan hk :=
    polling_of_place hplace
      (h.scan ((hreaders _ hk).resolve_right (Ne.symm hookGuard_ne_scanGuard)))

theorem Handles.withCore (h : s.Handles) {core : Core}
    (hthreads : ∀ u, u ≠ t → core.threads u = s.core.threads u)
    (hself : hookGuard t ∈ s.slots.curDataLock.readers → (core.threads t).slot.isSome = true ∧
      (core.threads t).pc ≠ .alloc ∧ (core.threads t).pc ≠ .dealloc)
    (hplace : core.gp.map Gp.place = s.core.gp.map Gp.place) : (s.withCore core).Handles :=
  h.update (fun _ _ => rfl) hthreads (fun _ hk => .inl hk) (fun hk => ⟨(h.hook t hk).1, hself hk⟩)
    hplace

/-- A hook does without the table, and comes to no call of it. -/
theorem Handles.plainHook (h : s.Handles) (halloc : (s.core.threads t).pc ≠ .alloc)
    (hslot : (s.core.threads t).pc.throughGuard = true ∨ (s.core.threads t).pc = .dealloc →
      (s.core.threads t).slot = none)
    {core : Core} (hs : s.core.hookStep t = some core) : (s.withCore core).Handles := by
  have hnone {pc : Pc} {i : SlotId} (hpc : (s.core.threads t).pc = pc)
      (hp : pc.throughGuard = true ∨ pc = .dealloc) (hi : (s.core.threads t).slot = some i) :
      False := by
    have hno := hslot (hp.imp (hpc ▸ ·) hpc.trans)
    rw [hi] at hno
    cases hno
  have hgoto {core : Core} {pc : Pc} (hpc : pc ≠ .alloc ∧ pc ≠ .dealloc)
      (hth : core.threads = (s.core.goto t pc).threads)
      (hplace : core.gp.map Gp.place = s.core.gp.map Gp.place) : (s.withCore core).Handles := by
    refine h.withCore (t := t) (fun u hu => ?_) (fun hk => ?_) hplace
    · rw [hth, Core.goto_ne _ _ _ hu]
    · rw [hth, Core.goto_slot, Core.goto_pc]
      exact ⟨(h.hook t hk).2.1, hpc⟩
  cases Core.hookStep_move hs with
  | dealloc hpc hi => exact (hnone hpc (.inr rfl) hi).elim
  | clearBusy hpc hi | markBusy hpc hi | publish hpc hi | loadPrev hpc hi | storeSeen hpc hi =>
    exact (hnone hpc (.inl rfl) hi).elim
  | alloc hpc => exact absurd hpc halloc
  | entryFence | seeEpoch | seeNewEpoch | panic => exact hgoto (by simp) rfl rfl
  | notify hn hret hf =>
    refine hgoto ?_ hf.threads hf.place
    rcases hret with rfl | hn'
    · exact ⟨Hook.ret_ne_alloc _, Hook.ret_ne_dealloc _⟩
    · constructor <;> rintro rfl <;> cases hn'

theorem Handles.guard (h : s.Handles) {a : SlotsAct}
    (ha : a = .read (hookGuard t) ∨ a = .deref (hookGuard t) ∨ a = .drop (hookGuard t))
    (hself : s.slots.calls t = .idle ∧ (s.core.threads t).slot.isSome = true ∧
      (s.core.threads t).pc ≠ .alloc ∧ (s.core.threads t).pc ≠ .dealloc)
    (hs : s.tableStep tcfg a = some s') : s'.Handles := by
  obtain ⟨x, hx, rfl⟩ := Option.map_eq_some_iff.mp hs
  obtain ⟨hcalls, -, -⟩ := GuardStep.of_step ha hx
  have hr := guard_readers ha hx
  refine h.update (t := t) (fun u _ => by rw [hcalls]) (fun _ _ => rfl)
    (fun k hk => (hr k hk).imp_right And.right) (fun _ => ?_) rfl
  rw [hcalls]
  exact hself

theorem Handles.storeStep (h : s.Handles)
    (hself : s.slots.calls t = .idle ∧ (s.core.threads t).slot.isSome = true)
    {v : Nat} {pc : Pc} (hpc : pc ≠ .alloc ∧ pc ≠ .dealloc)
    (hs : s.storeStep tcfg t i v pc = some s') : s'.Handles := by
  obtain ⟨x, hx, rfl⟩ := Option.map_eq_some_iff.mp hs
  simp only [Slots.step] at hx
  split at hx
  · split at hx <;> cases hx
    refine h.update (t := t) (fun _ _ => rfl) (fun u hu => Core.goto_ne _ _ _ hu)
      (fun _ hk => .inl hk) (fun _ => ⟨hself.1, ?_⟩) rfl
    rw [Core.goto_slot, Core.goto_pc]
    exact ⟨hself.2, hpc⟩
  · cases hx

theorem Handles.callStep (h : s.Handles) (hs : s.callStep tcfg t = some s') : s'.Handles := by
  obtain ⟨x, hx, rfl⟩ := Option.map_eq_some_iff.mp hs
  have hreaders := callStep_readers hx
  have hbusy : s.slots.calls t ≠ .idle := by
    intro he
    simp [Slots.callStep, he] at hx
  have hnot : hookGuard t ∉ s.slots.curDataLock.readers := fun hk => hbusy (h.hook t hk).1
  refine h.update (t := t) (fun u hu => Slots.callStep_calls hx hu) (fun u hu => ?_)
    (fun k hk => .inl (hreaders ▸ hk)) (fun hk => absurd (hreaders ▸ hk) hnot) ?_
  · dsimp only
    split <;> first | exact Core.setThread_ne _ _ _ hu | rfl
  · dsimp only
    split <;> rfl

theorem Handles.start (h : s.Handles) {a : SlotsAct} {v : Nat}
    (ha : a = .alloc t v ∧ (s.core.threads t).pc = .alloc ∨
      a = .dealloc t i ∧ (s.core.threads t).pc = .dealloc)
    (hs : s.tableStep tcfg a = some s') : s'.Handles := by
  obtain ⟨x, hx, rfl⟩ := Option.map_eq_some_iff.mp hs
  have hnot : hookGuard t ∉ s.slots.curDataLock.readers := fun hk =>
    ha.elim (fun ha => (h.hook t hk).2.2.1 ha.2) fun ha => (h.hook t hk).2.2.2 ha.2
  rcases ha with ⟨rfl, -⟩ | ⟨rfl, -⟩ <;> simp only [Slots.step] at hx <;> split at hx <;>
    cases hx <;>
    exact h.update (t := t) (fun u hu => Function.update_of_ne hu _ _) (fun _ _ => rfl)
      (fun _ hk => .inl hk) (fun hk => absurd hk hnot) rfl

theorem Handles.access (h : s.Handles) (hidle : s.slots.calls t = .idle)
    (hi : (s.core.threads t).slot = some i) (hs : s.access tcfg t i = some s') : s'.Handles := by
  have hself : s.slots.calls t = .idle ∧ (s.core.threads t).slot.isSome = true :=
    ⟨hidle, by rw [hi]; rfl⟩
  unfold Backed.access at hs
  cases hpc : (s.core.threads t).pc <;> simp only [hpc, reduceCtorEq] at hs
  case clearBusy =>
    obtain ⟨v, -, hs⟩ := Option.bind_eq_some_iff.mp hs
    exact h.storeStep hself (by simp) hs
  case markBusy | publish => exact h.storeStep hself (by simp) hs
  case loadPrev e =>
    obtain ⟨v, -, rfl⟩ := Option.map_eq_some_iff.mp hs
    refine h.withCore (t := t) (fun u hu => Core.goto_ne _ _ _ hu) (fun _ => ?_) rfl
    rw [Core.goto_slot, Core.goto_pc]
    exact ⟨hself.2, by simp⟩
  case storeSeen e prev =>
    refine h.storeStep hself ?_ hs
    split
    · split <;> simp
    · simp

theorem Handles.hookStep (h : s.Handles) (hs : s.hookStep tcfg t = some s') : s'.Handles := by
  have hplain (halloc : (s.core.threads t).pc ≠ .alloc)
      (hslot : (s.core.threads t).pc.throughGuard = true ∨ (s.core.threads t).pc = .dealloc →
        (s.core.threads t).slot = none)
      (hs : (s.core.hookStep t).map s.withCore = some s') : s'.Handles := by
    obtain ⟨core, hc, rfl⟩ := Option.map_eq_some_iff.mp hs
    exact h.plainHook halloc hslot hc
  unfold Backed.hookStep at hs
  split at hs
  · exact h.callStep hs
  · rename_i hidle
    have hidle : s.slots.calls t = .idle := not_not.mp hidle
    split at hs
    · rename_i hpc
      exact h.start (i := 0) (.inl ⟨rfl, hpc⟩) hs
    · rename_i halloc
      cases hi : (s.core.threads t).slot with
      | some i =>
        simp only [hi] at hs
        split at hs
        · rename_i hpc
          exact h.start (v := 0) (.inr ⟨rfl, hpc⟩) hs
        · rename_i hdealloc
          have hself : s.slots.calls t = .idle ∧ (s.core.threads t).slot.isSome = true ∧
              (s.core.threads t).pc ≠ .alloc ∧ (s.core.threads t).pc ≠ .dealloc :=
            ⟨hidle, by rw [hi]; rfl, halloc, hdealloc⟩
          split at hs
          · unfold guarded at hs
            split at hs
            · exact h.guard (.inl rfl) hself hs
            · split at hs
              · exact h.guard (.inr (.inl rfl)) hself hs
              · exact h.access hidle hi hs
          · rename_i hthrough
            split at hs
            · exact h.guard (.inr (.inr rfl)) hself hs
            · exact hplain halloc (fun hp => (hp.elim hthrough hdealloc).elim) hs
      | none =>
        simp only [hi] at hs
        exact hplain halloc (fun _ => hi) hs

theorem polling_iff : s.polling = true ↔
    ∃ g, s.core.gp = some g ∧ g.runner.isSome = true ∧ g.pc.asleep = false := by
  unfold polling
  cases s.core.gp <;> simp

theorem Handles.performer (h : s.Handles) (hcalls : s'.slots.calls = s.slots.calls)
    (hthreads : s'.core.threads = s.core.threads)
    (hreaders : ∀ k, k ∈ s'.slots.curDataLock.readers → k ∈ s.slots.curDataLock.readers ∨
      k = scanGuard)
    (hscan : scanGuard ∈ s'.slots.curDataLock.readers → s'.polling = true) : s'.Handles where
  hook t ht := by
    rw [hcalls, hthreads]
    exact h.hook t ((hreaders _ ht).resolve_right hookGuard_ne_scanGuard)
  scan := hscan

theorem Handles.gpStep (h : s.Handles) {g : Gp} (hg : s.core.gp = some g)
    (hs : s.gpStep cfg tcfg g = some s') : s'.Handles := by
  have hguard {a : SlotsAct} (ha : a = .read scanGuard ∨ a = .deref scanGuard ∨ a = .drop scanGuard)
      {x : Slots} (hx : s.slots.step tcfg a = some x) {core : Core}
      (hthreads : core.threads = s.core.threads)
      (hscan : scanGuard ∈ x.curDataLock.readers → (⟨core, x⟩ : Backed).polling = true) :
      (⟨core, x⟩ : Backed).Handles :=
    h.performer (GuardStep.of_step ha hx).calls hthreads
      (fun k hk => (guard_readers ha hx k hk).imp_right And.right) hscan
  -- the poll goes on, or has no guard any more
  have hgo {core : Core} (hthreads : core.threads = s.core.threads)
      (hscan : scanGuard ∈ s.slots.curDataLock.readers → g.runner.isSome = true →
        (s.withCore core).polling = true) : (s.withCore core).Handles := by
    refine h.performer rfl hthreads (fun _ hk => .inl hk) fun hk => hscan hk ?_
    obtain ⟨g', hg', hrun, -⟩ := polling_iff.mp (h.scan hk)
    cases hg.symm.trans hg'
    exact hrun
  unfold Backed.gpStep at hs
  split at hs
  · rename_i w sub hpc
    split at hs
    · rename_i self hself
      obtain ⟨t, ht, -⟩ := Option.bind_eq_some_iff.mp hself
      have hrun : g.runner.isSome = true := by rw [ht]; rfl
      split at hs
      · obtain ⟨x, hx, rfl⟩ := Option.map_eq_some_iff.mp hs
        exact hguard (.inl rfl) hx rfl fun _ => polling_iff.mpr ⟨g, hg, hrun, by rw [hpc]; rfl⟩
      · obtain ⟨x, hx, rfl⟩ := Option.map_eq_some_iff.mp hs
        exact hguard (.inr (.inl rfl)) hx rfl fun _ => polling_iff.mpr ⟨_, rfl, hrun, rfl⟩
    · rename_i hself
      obtain ⟨core, hc, rfl⟩ := Option.map_eq_some_iff.mp hs
      refine hgo (Core.gpStep_move hc).2.threads fun _ hrun => ?_
      obtain ⟨t, ht⟩ := Option.isSome_iff_exists.mp hrun
      rw [ht, Option.bind_some] at hself
      simp only [Core.gpStep, hpc, ht, Option.bind_eq_bind, Option.bind_some, hself] at hc
      cases hc
      exact polling_iff.mpr ⟨_, rfl, hrun, rfl⟩
  · rename_i w sub self len i hpc
    split at hs
    · obtain ⟨v, -, rfl⟩ := Option.map_eq_some_iff.mp hs
      refine hgo rfl fun _ hrun => polling_iff.mpr ⟨_, rfl, hrun, ?_⟩
      dsimp only
      split <;> rfl
    · rename_i hi
      obtain ⟨core, hc, rfl⟩ := Option.map_eq_some_iff.mp hs
      refine hgo (Core.gpStep_move hc).2.threads fun _ hrun => ?_
      simp only [Core.gpStep, hpc, if_neg hi] at hc
      cases hc
      exact polling_iff.mpr ⟨_, rfl, hrun, rfl⟩
  · split at hs
    · rename_i hheld
      obtain ⟨x, hx, rfl⟩ := Option.map_eq_some_iff.mp hs
      refine hguard (.inr (.inr rfl)) hx rfl fun hk => ?_
      rw [(step_drop hx).2] at hk
      exact absurd hk (Finset.notMem_erase _ _)
    · rename_i hfree
      obtain ⟨core, hc, rfl⟩ := Option.map_eq_some_iff.mp hs
      exact hgo (Core.gpStep_move hc).2.threads fun hk => absurd hk hfree

/-- The acts of the users: a thread that is outside has no guard. -/
theorem Handles.user (h : s.Handles) {a : Act} (hs : s.act cfg tcfg a = some s')
    (hhook : ∀ t, a ≠ .hook t) (hgp : a ≠ .gp) : s'.Handles := by
  have hplain {t : Tid} {o : Option Core} (hc : ∀ core, o = some core →
        (∀ u, u ≠ t → core.threads u = s.core.threads u) ∧ core.gp = s.core.gp)
      (hs : (if s.outside t = true then o.map s.withCore else none) = some s') : s'.Handles := by
    split at hs
    · rename_i hout
      obtain ⟨core, ho, rfl⟩ := Option.map_eq_some_iff.mp hs
      obtain ⟨hth, hgp⟩ := hc core ho
      exact h.withCore hth (fun hk => absurd hk (outside_iff.mp hout).2) (congrArg _ hgp)
    · cases hs
  -- nobody scans while no poll is under way
  have hwait {core : Core} (hno : s.polling = false) (hth : core.threads = s.core.threads) :
      (s.withCore core).Handles := by
    refine h.performer rfl hth (fun _ hk => .inl hk) fun hk => ?_
    rw [h.scan hk] at hno
    cases hno
  cases a with
  | hook t => exact absurd rfl (hhook t)
  | gp => exact absurd rfl hgp
  | other =>
    cases hs
    exact h
  | call t k =>
    refine hplain (fun core ho => ?_) hs
    simp only [Core.act] at ho
    split at ho <;> cases ho
    cases k <;> exact ⟨fun u hu => Core.goto_ne _ _ _ hu, rfl⟩
  | openSection t =>
    refine hplain (fun core ho => ?_) hs
    simp only [Core.act, Core.enterSection] at ho
    split at ho
    · split at ho <;> cases ho
      exact ⟨fun u hu => Core.setThread_ne _ _ _ hu, rfl⟩
    · cases ho
  | closeSection t =>
    refine hplain (fun core ho => ?_) hs
    simp only [Core.act, Core.exitSection] at ho
    split at ho
    · split at ho <;> cases ho
      exact ⟨fun u hu => Core.setThread_ne _ _ _ hu, rfl⟩
    · cases ho
  | begin t w =>
    simp only [act] at hs
    split at hs
    · obtain ⟨core, ho, rfl⟩ := Option.map_eq_some_iff.mp hs
      simp only [Core.act, Core.beginGp] at ho
      split at ho
      · split at ho <;> cases ho
        rename_i hg
        exact hwait (by simp [polling, hg]) rfl
      · cases ho
    · cases hs
  | poll t w =>
    simp only [act] at hs
    split at hs
    · obtain ⟨core, ho, rfl⟩ := Option.map_eq_some_iff.mp hs
      simp only [Core.act, Core.pollGp] at ho
      split at ho
      · split at ho <;> cases ho
        rename_i hg
        exact hwait (by simp [polling, hg]) rfl
      · cases ho
    · cases hs
  | abandon =>
    obtain ⟨core, ho, rfl⟩ := Option.map_eq_some_iff.mp hs
    simp only [Core.act, Core.abandonGp] at ho
    split at ho <;> cases ho
    rename_i hg
    exact hwait (by simp [polling, hg]) rfl

theorem handles_of_reach {ok : Backed → Act → Prop} (h : (backedMachine cfg tcfg).Reach ok s) :
    s.Handles := by
  refine h.induct (fun s hs => ?_) fun s a s' _ ih _ hs => ?_
  · have hno (k : GuardId) : k ∉ s.slots.curDataLock.readers := by
      rw [hs.2]
      exact Finset.notMem_empty k
    exact ⟨fun t ht => absurd ht (hno _), fun hk => absurd hk (hno _)⟩
  · obtain ⟨s₁, ha, rfl⟩ := Option.map_eq_some_iff.mp hs
    have h₁ : s₁.Handles := by
      cases a with
      | hook t => exact ih.hookStep ha
      | gp =>
        obtain ⟨g, hg, ha⟩ := Option.bind_eq_some_iff.mp ha
        exact ih.gpStep hg ha
      | call | openSection | closeSection | begin | poll | abandon | other =>
        exact ih.user ha (by simp) (by simp)
    exact ⟨h₁.hook, h₁.scan⟩

-- ---------------------------------------------------------------------------
-- Who can go on
-- ---------------------------------------------------------------------------

theorem writer_locked (h : s.slots.Inv) {k : Nat} (hw : s.slots.curDataLock.writer = some k) :
    s.slots.writeLock = some k := by
  have hk := (h.cur.writer k).mp hw
  refine (h.lock k).mpr ?_
  cases hc : s.slots.calls k <;> rw [hc] at hk <;> first | rfl | cases hk

theorem writer_none (h : s.slots.Inv) (hlock : s.slots.writeLock = none) :
    s.slots.curDataLock.writer = none := by
  cases hw : s.slots.curDataLock.writer with
  | none => rfl
  | some k =>
    have hk := writer_locked h hw
    rw [hlock] at hk
    cases hk

/-- The call that has the write lock waits for guards only. -/
theorem holder_enabled (h : s.slots.Inv)
    (hroom : (s.slots.calls t).pushes = true → s.slots.table.len < tcfg.maxSlots)
    (hlock : s.slots.writeLock = some t) (hreaders : s.slots.curDataLock.readers = ∅) :
    ∃ x, s.slots.callStep tcfg t = some x := by
  have hlocked := (h.lock t).mp hlock
  have hwrite (hc : (s.slots.calls t).writing = false) :
      ∃ l, s.slots.curDataLock.write t = some l := by
    have hw : s.slots.curDataLock.writer = none := by
      cases hw : s.slots.curDataLock.writer with
      | none => rfl
      | some k =>
        obtain rfl : k = t := Option.some.inj ((writer_locked h hw).symm.trans hlock)
        rw [(h.cur.writer k).mp hw] at hc
        cases hc
    simp [Lib.RwLock.write, hw, hreaders]
  cases hc : s.slots.calls t <;> rw [hc] at hlocked hwrite hroom <;>
    simp only [Slots.callStep, hc, Option.some.injEq, exists_eq']
  case idle | allocLock | deallocLock => cases hlocked
  case popFree => split <;> exact ⟨_, rfl⟩
  case pushInPlace | pushGrow => simp only [if_pos (hroom rfl), Option.some.injEq, exists_eq']
  case lockCreate | lockGrow =>
    obtain ⟨l, hl⟩ := hwrite rfl
    simp only [hl, Option.map_some, Option.some.injEq, exists_eq']

/-- A thread with a guard waits for `SUBSCRIBER_INFO` only. -/
theorem reader_enabled (h : s.Inv) (hh : s.Handles) (hk : hookGuard t ∈ s.slots.curDataLock.readers)
    (hinfo : s.core.infoWriter = none) : ∃ s', s.hookStep tcfg t = some s' := by
  obtain ⟨hidle, hsome, halloc, hdealloc⟩ := hh.hook t hk
  obtain ⟨i, hi⟩ := Option.isSome_iff_exists.mp hsome
  simp only [hookStep, hidle, ne_eq, not_true_eq_false, if_false, halloc, hi, hdealloc]
  split
  · rename_i hthrough
    simp only [guarded, hk, not_true_eq_false, if_false]
    split
    · simp [tableStep, Slots.step, hk]
    · rename_i hv
      exact Option.isSome_iff_exists.mp (h.access_isSome hi hthrough hv)
  · split
    · simp [tableStep, Slots.step, hk]
    · rename_i hkeeps
      have hkeeps : (s.core.threads t).pc.keepsGuard = true := by simpa [hk] using hkeeps
      have hook : ∃ k, (s.core.threads t).pc.hook = some k := by
        cases hpc : (s.core.threads t).pc <;> rw [hpc] at hkeeps <;>
          first | exact ⟨_, rfl⟩ | cases hkeeps
      obtain ⟨k, hk⟩ := hook
      obtain ⟨core, hc⟩ := Core.hook_enabled hk (.inl hinfo)
      simp [hc]

/-- The hook goes on outside of the table. -/
theorem plain_enabled (hidle : s.slots.calls t = .idle) (halloc : (s.core.threads t).pc ≠ .alloc)
    (hslot : ∀ i, (s.core.threads t).slot = some i → (s.core.threads t).pc ≠ .dealloc ∧
      (s.core.threads t).pc.throughGuard = false)
    (hs : ∃ core, s.core.hookStep t = some core) : ∃ s', s.hookStep tcfg t = some s' := by
  obtain ⟨core, hs⟩ := hs
  simp only [hookStep, hidle, ne_eq, not_true_eq_false, if_false, halloc]
  cases hi : (s.core.threads t).slot with
  | none => simp [hs]
  | some i =>
    obtain ⟨hdealloc, hthrough⟩ := hslot i hi
    simp only [hdealloc, if_false, hthrough, Bool.false_eq_true]
    split
    · rename_i hk
      simp [tableStep, Slots.step, hk.1]
    · simp [hs]

/-- A notifier that has taken the registration waits for nobody. -/
theorem notifier_enabled (h : s.Inv) (hpc : (s.core.threads t).pc = .clearHasSubscriber k) :
    ∃ s', s.hookStep tcfg t = some s' := by
  by_cases hidle : s.slots.calls t = .idle
  · refine plain_enabled hidle (by simp [hpc]) (fun i _ => ?_)
      (Core.hook_enabled (by rw [hpc]; rfl) (.inr hpc))
    rw [hpc]
    exact ⟨by simp, rfl⟩
  · have halloc (v : Nat) : (s.slots.calls t).initial ≠ some v := fun hv => by
      have hp := (h.allocating t v hv).1
      rw [hpc] at hp
      cases hp
    have hdealloc (i : SlotId) : (s.slots.calls t).leaves ≠ some i := fun hi => by
      have hp := (h.leaving t i hi).1
      rw [hpc] at hp
      cases hp
    simp only [hookStep, ne_eq, hidle, not_false_eq_true, if_true, callStep]
    -- the call has taken effect, and is about to return
    cases hc : s.slots.calls t <;> rw [hc] at halloc hdealloc <;>
      simp [CallPc.initial, CallPc.leaves] at halloc hdealloc <;>
      simp [Slots.callStep, hc]
    exact hidle hc

/-- Nobody holds a lock or a guard. -/
theorem alone_enabled (h : s.Inv) (hreaders : s.slots.curDataLock.readers = ∅)
    (hlock : s.slots.writeLock = none) (hinfo : s.core.infoWriter = none)
    (ht : s.inHook t = true) : ∃ s', s.hookStep tcfg t = some s' := by
  have hguard : hookGuard t ∉ s.slots.curDataLock.readers := hreaders ▸ Finset.notMem_empty _
  by_cases hidle : s.slots.calls t = .idle
  · by_cases halloc : (s.core.threads t).pc = .alloc
    · simp [hookStep, hidle, halloc, tableStep, Slots.step]
    · have hout : s.outside t = true := outside_iff.mpr ⟨hidle, hguard⟩
      have hk : ((s.core.threads t).pc.hook).isSome = true := by simpa [inHook, hout] using ht
      obtain ⟨k, hk⟩ := Option.isSome_iff_exists.mp hk
      cases hi : (s.core.threads t).slot with
      | none => exact plain_enabled hidle halloc (by simp [hi]) (Core.hook_enabled hk (.inl hinfo))
      | some i =>
        by_cases hdealloc : (s.core.threads t).pc = .dealloc
        · simp [hookStep, hidle, hi, hdealloc, tableStep, Slots.step]
        · cases hthrough : (s.core.threads t).pc.throughGuard with
          | false =>
            exact plain_enabled hidle halloc (fun _ _ => ⟨hdealloc, hthrough⟩)
              (Core.hook_enabled hk (.inl hinfo))
          | true =>
            simp [hookStep, hidle, halloc, hi, hdealloc, hthrough, guarded, hguard, tableStep,
              Slots.step, Lib.RwLock.read, writer_none h.slots hlock]
  · have hunlocked : ¬ (s.slots.calls t).locked = true := fun hl => by
      rw [(h.slots.lock t).mpr hl] at hlock
      cases hlock
    simp only [hookStep, ne_eq, hidle, not_false_eq_true, if_true, callStep]
    cases hc : s.slots.calls t <;> rw [hc] at hunlocked <;>
      first
      | exact absurd rfl hunlocked
      | exact absurd hc hidle
      | simp [Slots.callStep, hc, hlock]

/-- A scan that has its guard waits for nobody. -/
theorem scanner_enabled (h : s.Inv) (hk : scanGuard ∈ s.slots.curDataLock.readers)
    (hp : s.polling = true) : ∃ s', s.act cfg tcfg .gp = some s' := by
  obtain ⟨g, hg, hrun, -⟩ := polling_iff.mp hp
  obtain ⟨t, ht⟩ := Option.isSome_iff_exists.mp hrun
  simp only [act, hg, Option.bind_some]
  unfold gpStep
  split
  · rename_i w sub hpc
    split
    · simp [hk, Slots.step]
    · rename_i hself
      rw [ht, Option.bind_some] at hself
      simp [Core.gpStep, hpc, ht, hself]
  · rename_i w sub self len i hpc
    split
    · rename_i hi
      rw [h.scan_load hg hpc hi]
      exact ⟨_, rfl⟩
    · rename_i hi
      simp [Core.gpStep, hpc, hi]
  · simp [hk, tableStep, Slots.step]

/-- A poll of the performer that finds nobody in a lock section. -/
theorem performer_enabled (h : s.Inv) (hreaders : s.slots.curDataLock.readers = ∅)
    (hlock : s.slots.writeLock = none) (hinfo : s.core.infoWriter = none) (hp : s.polling = true) :
    ∃ s', s.act cfg tcfg .gp = some s' := by
  obtain ⟨g, hg, hrun, hawake⟩ := polling_iff.mp hp
  obtain ⟨t, ht⟩ := Option.isSome_iff_exists.mp hrun
  have hk : scanGuard ∉ s.slots.curDataLock.readers := hreaders ▸ Finset.notMem_empty _
  have hcore : ∃ core, s.core.gpStep cfg g = some core := by
    unfold Core.gpStep
    cases hpc : g.pc <;> rw [hpc] at hawake <;>
      simp only [ht, hinfo, Option.bind_eq_bind, Option.bind_some, Option.some.injEq, exists_eq',
        if_true, ne_eq, not_true_eq_false, and_false, if_false]
    case suspended => cases hawake
    case beginScan => split <;> exact ⟨_, rfl⟩
    case scan => split <;> exact ⟨_, rfl⟩
    case readRegistered | updateRegistered => split <;> exact ⟨_, rfl⟩
  obtain ⟨core, hcore⟩ := hcore
  simp only [act, hg, Option.bind_some]
  unfold gpStep
  split
  · split
    · simp [hk, tableStep, Slots.step, Lib.RwLock.read, writer_none h.slots hlock]
    · simp [hcore]
  · split
    · rename_i hpc hi
      rw [h.scan_load hg hpc hi]
      exact ⟨_, rfl⟩
    · simp [hcore]
  · simp [hk, hcore]

theorem inHook_iff : s.inHook t = true ↔ s.slots.calls t ≠ .idle ∨
    hookGuard t ∈ s.slots.curDataLock.readers ∨ ((s.core.threads t).pc.hook).isSome = true := by
  simp [inHook, outside, or_assoc]

theorem canGoOn_of_reach (h : (backedMachine cfg tcfg).Reach (fun s a => TokioOrder s.abs a) s)
    (hroom : ∀ t, (s.slots.calls t).pushes = true → s.slots.table.len < tcfg.maxSlots)
    (hbusy : (∃ t, s.inHook t = true) ∨ s.polling = true) : s.CanGoOn cfg tcfg := by
  obtain ⟨hinv, hreach⟩ := refines (fun _ _ ha => ha) (fun _ => trivial) h
  have hnoted : s.abs.Noted cfg := Core.noted_of_reach hreach
  have hhandles := handles_of_reach h
  have byHook {t : Tid} (ht : s.inHook t = true) (hs : ∃ s', s.hookStep tcfg t = some s') :
      s.CanGoOn cfg tcfg := by
    obtain ⟨s', hs⟩ := hs
    exact .inl ⟨t, ht, s'.tick, by simp [backedMachine, step, act, hs]⟩
  have byGp (hp : s.polling = true) (hs : ∃ s', s.act cfg tcfg .gp = some s') :
      s.CanGoOn cfg tcfg := by
    obtain ⟨s', hs⟩ := hs
    exact .inr ⟨hp, s'.tick, by simp [backedMachine, step, hs]⟩
  cases hinfo : s.core.infoWriter with
  | some t =>
    obtain ⟨k, hpc⟩ := (hnoted.writer t).mp hinfo
    replace hpc : (s.core.threads t).pc = .clearHasSubscriber k := hpc
    exact byHook (inHook_iff.mpr (.inr (.inr (by rw [hpc]; rfl)))) (notifier_enabled hinv hpc)
  | none =>
    rcases s.slots.curDataLock.readers.eq_empty_or_nonempty with hreaders | ⟨k, hk⟩
    · cases hlock : s.slots.writeLock with
      | some t =>
        obtain ⟨x, hx⟩ := holder_enabled hinv.slots (hroom t) hlock hreaders
        have hcall : s.slots.calls t ≠ .idle := fun he => by simp [Slots.callStep, he] at hx
        refine byHook (inHook_iff.mpr (.inl hcall)) ?_
        simp [hookStep, hcall, callStep, hx]
      | none =>
        rcases hbusy with ⟨t, ht⟩ | hp
        · exact byHook ht (alone_enabled hinv hreaders hlock hinfo ht)
        · exact byGp hp (performer_enabled hinv hreaders hlock hinfo hp)
    · -- a guard is a hook's or the scan's
      cases k with
      | zero => exact byGp (hhandles.scan hk) (scanner_enabled hinv hk (hhandles.scan hk))
      | succ t =>
        exact byHook (inHook_iff.mpr (.inr (.inl hk))) (reader_enabled hinv hhandles hk hinfo)

end Backed
end TokioRcu
