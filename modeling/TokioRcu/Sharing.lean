import TokioRcu.SyncInvariant

/-!
# Sharing a grace period

A call that returns has been served by an execution of
`synchronize_rcu_serialized` that began after its own increment, over any
number of resets of the counters and whichever futures are dropped. The
counters are in order except between the two stores of a reset.
-/

namespace TokioRcu
namespace Sync

variable {cfg : Config} {s s' : Sync} {c : CallId}

theorem callStep_finished (h : s.callStep cfg c = some s') :
    s'.finishedCounter = s.finishedCounter ∨ (s.calls c).pc = .resetFinished ∨
      ∃ id n, (s.calls c).pc = .publish id n ∧ s'.finishedCounter = n := by
  unfold callStep at h
  cases hpc : (s.calls c).pc <;> simp only [hpc, Option.some.injEq, reduceCtorEq] at h
  case awaitRead | awaitWrite =>
    obtain ⟨l, -, rfl⟩ := Option.map_eq_some_iff.mp h
    exact .inl rfl
  case compareExchange =>
    subst h
    split <;> exact .inl rfl
  case awaitReset n l =>
    split at h
    · cases h
      exact .inl rfl
    · cases l <;> cases h <;> exact .inl rfl
  case awaitMutex =>
    split at h <;> cases h
    exact .inl rfl
  case resetFinished => exact .inr (.inl rfl)
  case publish id n =>
    subst h
    exact .inr (.inr ⟨id, n, rfl, rfl⟩)
  all_goals
    subst h
    exact .inl rfl

/-- The finished counter goes down only when a reset stores it. -/
theorem finished_mono (h : s.Inv cfg) {a : SyncAct} (hs : s.step cfg a = some s') :
    s.finishedCounter ≤ s'.finishedCounter ∨
      ∃ c, a = .call c ∧ (s.calls c).pc = .resetFinished := by
  obtain ⟨s₁, ha, rfl⟩ := Option.map_eq_some_iff.mp hs
  cases a with
  | call c =>
    rcases callStep_finished ha with he | hpc | ⟨id, n, hpc, he⟩
    · exact .inl (Nat.le_of_eq he.symm)
    · exact .inr ⟨c, rfl, hpc⟩
    · refine .inl ?_
      show s.finishedCounter ≤ s₁.finishedCounter
      rw [he]
      exact ((h.call c).sample n (by rw [hpc]; rfl)).finished
  | spurious c =>
    simp only [act, spuriousStep] at ha
    split at ha <;> cases ha
    exact .inl (Nat.le_refl _)
  | drop c =>
    simp only [act, dropStep] at ha
    split at ha <;> cases ha <;> exact .inl (Nat.le_refl _)
  | other =>
    cases ha
    exact .inl (Nat.le_refl _)

/-- The call that resets the counters, between its two stores. -/
def Clearing (s : Sync) : Prop :=
  ∃ c, s.resetSyncLock.writer = some c ∧ (s.calls c).pc = .resetFinished

/-- A call returns only after an execution that began after its own increment,
and the counters mean to it what they meant when it took its gp id. -/
theorem returns_after_execution (h : (syncMachine cfg).Reach (fun _ _ => True) s) :
    (∀ c, (s.calls c).pc = .ended .ready → ∃ e ∈ s.completed, (s.calls c).countedAt < e) ∧
    (s.finishedCounter ≤ s.startedCounter ∨ s.Clearing) ∧
    (∀ a s', s.step cfg a = some s' → s.finishedCounter ≤ s'.finishedCounter ∨
      ∃ c, a = .call c ∧ (s.calls c).pc = .resetFinished) ∧
    (∀ c d id, (s.calls c).pc.gpId = some id → (s.calls d).pc.gpId = some id → c = d) ∧
    (∀ c, (s.calls c).pc = .resetStarted ∨ (s.calls c).pc = .resetFinished →
      ∀ d, (s.calls d).pc.gpId = none) ∧
    (∀ c id, (s.calls c).pc.gpId = some id → s.resetAt < (s.calls c).countedAt) := by
  have hinv : s.Inv cfg := inv_inductive.reach h
  refine ⟨fun c hc => ?_, ?_, fun a s' hs => finished_mono hinv hs, fun c d id hc hd => ?_,
    fun c hc d => ?_, fun c id hc => ((hinv.call c).id id hc).reset⟩
  · exact ((hinv.call c).returns (by rw [hc]; rfl)).1
  · refine hinv.finished.imp_right fun ⟨c, hc⟩ => ⟨c, ?_, hc⟩
    exact (hinv.lock.writer c).mpr (by rw [hc]; rfl)
  · have hl := ((hinv.call c).id id hc).ledger.symm.trans ((hinv.call d).id id hd).ledger
    exact congrArg Prod.fst hl
  · have hw : (s.calls c).pc.holdsWrite = true := by
      rcases hc with hc | hc <;> rw [hc] <;> rfl
    by_contra hne
    obtain ⟨id, hd⟩ := Option.ne_none_iff_exists'.mp hne
    exact hinv.lock.exclusive c d hw (SyncPc.holdsRead_of_gpId hd)

/-- One call alone. -/
theorem returns_after_execution_alone :
    ∃ s : Sync, (s.calls 0).pc = .ended .ready ∧ ∃ e ∈ s.completed, (s.calls 0).countedAt < e := by
  obtain ⟨s, hs, hp⟩ := Lib.Machine.exists_of_runIf (M := syncMachine Config.testMode)
    (fun _ _ => True) (List.replicate 12 (.call 0))
    (fun s => (s.calls 0).pc == .ended .ready) rfl (by decide)
  have hpc := beq_iff_eq.mp hp
  exact ⟨s, hpc, (returns_after_execution hs).1 0 hpc⟩

-- ---------------------------------------------------------------------------
-- Reaching the maximum
-- ---------------------------------------------------------------------------

/-- The calls below `n` have made one increment each and are over, the others
have not been polled. -/
structure Quiet (s : Sync) (n finished : Nat) : Prop where
  started : s.startedCounter = n
  finished : s.finishedCounter = finished
  lock : s.resetSyncLock = .unlocked
  mutex : s.mutex = none
  ended : ∀ c, c < n → ∃ o, (s.calls c).pc = .ended o
  fresh : ∀ c, n ≤ c → (s.calls c).pc = .new

/-- A new call makes its increment. -/
theorem run_increment (hpc : (s.calls c).pc = .new) (hw : s.resetSyncLock.writer = none)
    (hn : s.startedCounter < cfg.gpIdMax) :
    ∃ s', (syncMachine cfg).run s (List.replicate 4 (.call c)) = some s' ∧
      s'.startedCounter = s.startedCounter + 1 ∧ s'.finishedCounter = s.finishedCounter ∧
      s'.resetSyncLock = { readers := insert c s.resetSyncLock.readers, writer := none } ∧
      s'.mutex = s.mutex ∧
      (s'.calls c).pc = (if s.startedCounter + 1 = cfg.gpIdMax then .leaderUnlock
        else .awaitMutex (s.startedCounter + 1)) ∧
      ∀ d, d ≠ c → s'.calls d = s.calls d := by
  have hne : s.startedCounter ≠ cfg.gpIdMax := Nat.ne_of_lt hn
  refine ⟨_, by
    simp [Lib.Machine.run, syncMachine, Sync.step, Sync.act, Sync.callStep, hpc, Sync.setCall,
      Sync.tick, Sync.goto, hw, Lib.RwLock.read, Sync.tryUpdate, hne, Sync.increment]
    rfl, ?_⟩
  simp only [Function.update_self, true_and]
  intro d hd
  simp [hd]

theorem Quiet.increment (h : s.Quiet n f) (hn : n + 1 < cfg.gpIdMax) :
    ∃ s', (syncMachine cfg).run s (List.replicate 4 (.call n)) = some s' ∧
      s'.startedCounter = n + 1 ∧ s'.finishedCounter = f ∧
      s'.resetSyncLock = { readers := {n}, writer := none } ∧ s'.mutex = none ∧
      (s'.calls n).pc = .awaitMutex (n + 1) ∧ ∀ c, c ≠ n → s'.calls c = s.calls c := by
  obtain ⟨s', hr, hstarted, hfin, hlock, hmutex, hpc, hother⟩ := run_increment
    (h.fresh n (Nat.le_refl n)) (by rw [h.lock]; rfl) (h.started ▸ Nat.lt_of_succ_lt hn)
  rw [h.started] at hstarted hpc
  rw [if_neg (Nat.ne_of_lt hn)] at hpc
  exact ⟨s', hr, hstarted, hfin.trans h.finished, by rw [hlock, h.lock]; rfl,
    hmutex.trans h.mutex, hpc, hother⟩

theorem Quiet.next (h : s.Quiet n f) (hstarted : s'.startedCounter = n + 1)
    (hfinished : s'.finishedCounter = f') (hlock : s'.resetSyncLock = .unlocked)
    (hmutex : s'.mutex = none) (hpc : (s'.calls n).pc = .ended o)
    (hother : ∀ c, c ≠ n → s'.calls c = s.calls c) : s'.Quiet (n + 1) f' := by
  refine ⟨hstarted, hfinished, hlock, hmutex, fun c hc => ?_, fun c hc => ?_⟩
  · by_cases hcn : c = n
    · exact ⟨o, hcn ▸ hpc⟩
    · rw [hother c hcn]
      exact h.ended c (Nat.lt_of_le_of_ne (Nat.le_of_lt_succ hc) hcn)
  · rw [hother c (Nat.ne_of_gt hc)]
    exact h.fresh c (Nat.le_of_succ_le hc)

/-- It is dropped before it gets the mutex. -/
theorem Quiet.abandon (h : s.Quiet n f) (hn : n + 1 < cfg.gpIdMax) :
    ∃ s', (syncMachine cfg).run s (List.replicate 4 (.call n) ++ [.drop n, .call n]) = some s' ∧
      s'.Quiet (n + 1) f := by
  obtain ⟨s₁, h₁, hstarted, hfin, hlock, hmutex, hpc, hother⟩ := h.increment hn
  rw [Lib.Machine.run_append, h₁]
  refine ⟨_, by
    simp [Lib.Machine.run, syncMachine, Sync.step, Sync.act, Sync.callStep, Sync.dropStep, hpc,
      Sync.setCall, Sync.tick, Sync.goto, hlock, Lib.RwLock.dropRead]
    rfl, ?_⟩
  refine h.next (o := .dropped) hstarted hfin rfl hmutex (by simp) fun c hc => ?_
  simp [hc, hother c hc]

/-- It performs its grace period and returns. -/
theorem Quiet.finish (h : s.Quiet n f) (hn : n + 1 < cfg.gpIdMax) (hf : f ≤ n) :
    ∃ s', (syncMachine cfg).run s (List.replicate 4 (.call n) ++ List.replicate 8 (.call n)) =
        some s' ∧ s'.Quiet (n + 1) (n + 1) := by
  obtain ⟨s₁, h₁, hstarted, hfin, hlock, hmutex, hpc, hother⟩ := h.increment hn
  have hlt : ¬ n + 1 ≤ f := Nat.not_le_of_lt (Nat.lt_succ_of_le hf)
  rw [Lib.Machine.run_append, h₁]
  refine ⟨_, by
    simp [Lib.Machine.run, syncMachine, Sync.step, Sync.act, Sync.callStep, hpc, Sync.setCall,
      Sync.tick, Sync.goto, hlock, hmutex, Lib.RwLock.dropRead, hstarted, hfin, hlt]
    rfl, ?_⟩
  refine h.next (o := .ready) rfl rfl rfl rfl (by simp) fun c hc => ?_
  simp [hc, hother c hc]

theorem exists_quiet (hn : n < cfg.gpIdMax) :
    ∃ s, (syncMachine cfg).Reach (fun _ _ => True) s ∧ s.Quiet n 0 := by
  induction n with
  | zero =>
    refine ⟨.initial, .init rfl, rfl, rfl, rfl, rfl, fun c hc => absurd hc (Nat.not_lt_zero c),
      fun _ _ => rfl⟩
  | succ n ih =>
    obtain ⟨s, hs, hq⟩ := ih (Nat.lt_of_succ_lt hn)
    obtain ⟨s', hr, hq'⟩ := hq.abandon hn
    exact ⟨s', hs.run hr, hq'⟩

/-- Between the two stores of a reset the finished counter is ahead. -/
theorem finished_ahead_in_reset :
    ¬ ∀ s : Sync, (syncMachine Config.testMode).Reach (fun _ _ => True) s →
      s.finishedCounter ≤ s.startedCounter := by
  intro hall
  obtain ⟨s, hs, hq⟩ := exists_quiet (show 253 < Config.testMode.gpIdMax by decide)
  obtain ⟨s₁, h₁, hq₁⟩ := hq.finish (show 253 + 1 < Config.testMode.gpIdMax by decide) (by decide)
  obtain ⟨s₂, h₂, hstarted, hfin, hlock, -, hpc, -⟩ := run_increment
    (hq₁.fresh 254 (Nat.le_refl _)) (by rw [hq₁.lock]; rfl)
    (show s₁.startedCounter < Config.testMode.gpIdMax by rw [hq₁.started]; decide)
  rw [hq₁.started, if_pos (by decide)] at hpc
  rw [hq₁.lock] at hlock
  rw [hq₁.finished] at hfin
  obtain ⟨s₃, h₃, hlt⟩ : ∃ s₃, (syncMachine Config.testMode).run s₂ (List.replicate 3 (.call 254)) =
      some s₃ ∧ s₃.startedCounter < s₃.finishedCounter := by
    refine ⟨_, by
      simp [Lib.Machine.run, syncMachine, Sync.step, Sync.act, Sync.callStep, hpc, Sync.setCall,
        Sync.tick, Sync.goto, hlock, Lib.RwLock.dropRead, Lib.RwLock.write, Lib.RwLock.unlocked]
      rfl, ?_⟩
    simp [hfin]
  exact absurd (hall s₃ (((hs.run h₁).run h₂).run h₃)) (Nat.not_le_of_lt hlt)

end Sync
end TokioRcu
