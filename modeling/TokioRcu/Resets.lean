import TokioRcu.Sharing

/-!
# Resets of the counters

Whoever makes the increment to the maximum leads the reset, and everybody else
relies on it. As long as no leader is dropped before it has stored 0, a counter
at its maximum has a leader and every listener has somebody who will notify it.
A leader that is dropped while it waits for the guard for writing leaves the
counter at its maximum for good.
-/

namespace TokioRcu

/-- A leader that has not notified the others yet. -/
def SyncPc.willNotify : SyncPc → Bool
  | .leaderUnlock | .awaitWrite | .resetStarted | .resetFinished | .unlockWrite | .notify => true
  | _ => false

/-- A follower that no `notify` has reached since its call of `notified`. -/
def SyncPc.unnotified (numWakeups : Nat) : SyncPc → Bool
  | .followerUnlock n | .awaitReset n .unpolled => n == numWakeups
  | .awaitReset _ .listed => true
  | _ => false

/-- What `notified` has read of `num_wakeups`. -/
def SyncPc.snapshot : SyncPc → Option Nat
  | .followerUnlock n | .awaitReset n _ => some n
  | _ => none

theorem SyncPc.willNotify_of_leads {pc : SyncPc} (h : pc.leads = true) : pc.willNotify = true := by
  cases pc <;> simp [leads] at h <;> rfl

/-- Once `notify` is through, whoever listened before it has been reached. -/
theorem SyncPc.unnotified_notified {pc : SyncPc} (h : ∀ n, pc.snapshot = some n → n ≤ k) :
    pc.notified.unnotified (k + 1) = false := by
  cases pc with
  | followerUnlock n => simpa [notified, unnotified] using Nat.ne_of_lt (Nat.lt_succ_of_le (h n rfl))
  | awaitReset n l =>
    cases l with
    | unpolled => simpa [notified, unnotified] using Nat.ne_of_lt (Nat.lt_succ_of_le (h n rfl))
    | listed | woken => rfl
  | _ => rfl

theorem Config.gpIdMax_pos (cfg : Config) : 0 < cfg.gpIdMax := by
  have := Nat.pow_le_pow_right (n := 2) (by decide) cfg.gpIdBits_pos
  simp only [gpIdMax]
  omega

namespace Sync

variable {cfg : Config} {s s' : Sync} {c : CallId} {x : Call}

/-- A leader is not dropped before it has stored 0. -/
def KeepsLeader (s : Sync) : SyncAct → Prop
  | .drop c => (s.calls c).pc.leads = false
  | _ => True

/-- The first poll of a listener does not miss notifications because the
counter has come round to its snapshot. -/
def NoWrap (cfg : Config) (s : Sync) : SyncAct → Prop
  | .call c => ∀ n ∈ (s.calls c).pc.snapshot, (s.calls c).pc = .awaitReset n .unpolled →
    s.numWakeups ≠ n → s.wakeupsChanged cfg n = true
  | _ => True

instance (s : Sync) : (a : SyncAct) → Decidable (s.KeepsLeader a)
  | .drop c => inferInstanceAs (Decidable ((s.calls c).pc.leads = false))
  | .call _ | .spurious _ | .other => .isTrue True.intro

instance (s : Sync) : (a : SyncAct) → Decidable (NoWrap cfg s a)
  | .call c => inferInstanceAs (Decidable (∀ n ∈ (s.calls c).pc.snapshot,
      (s.calls c).pc = .awaitReset n .unpolled → s.numWakeups ≠ n → s.wakeupsChanged cfg n = true))
  | .spurious _ | .drop _ | .other => .isTrue True.intro

structure Attended (cfg : Config) (s : Sync) : Prop where
  leader : s.startedCounter = cfg.gpIdMax → ∃ c, (s.calls c).pc.leads = true
  listener : ∀ c, (s.calls c).pc.unnotified s.numWakeups = true →
    ∃ d, (s.calls d).pc.willNotify = true
  snapshot : ∀ c n, (s.calls c).pc.snapshot = some n → n ≤ s.numWakeups

theorem exists_update {calls : CallId → Call} {f : SyncPc → Bool}
    (hf : f (calls c).pc = true → f x.pc = true) (h : ∃ d, f (calls d).pc = true) :
    ∃ d, f (Function.update calls c x d).pc = true := by
  obtain ⟨d, hd⟩ := h
  by_cases hdc : d = c
  · exact ⟨c, by rw [Function.update_self]; exact hf (hdc ▸ hd)⟩
  · exact ⟨d, by rwa [Function.update_of_ne hdc]⟩

/-- A call moves. -/
theorem Attended.update (h : s.Attended cfg) (hcalls : s'.calls = Function.update s.calls c x)
    (hleader : s'.startedCounter = cfg.gpIdMax → ∃ d, (s'.calls d).pc.leads = true)
    (hnum : s'.numWakeups = s.numWakeups)
    (hwill : (s.calls c).pc.willNotify = true → x.pc.willNotify = true)
    (hun : x.pc.unnotified s.numWakeups = true → ∃ d, (s.calls d).pc.willNotify = true)
    (hsnap : ∀ n, x.pc.snapshot = some n → n ≤ s.numWakeups) : s'.Attended cfg := by
  refine ⟨hleader, fun d hd => ?_, fun d n hd => ?_⟩
  · rw [hcalls] at hd ⊢
    rw [hnum] at hd
    refine exists_update hwill ?_
    by_cases hdc : d = c
    · rw [hdc, Function.update_self] at hd
      exact hun hd
    · rw [Function.update_of_ne hdc] at hd
      exact h.listener d hd
  · rw [hcalls] at hd
    rw [hnum]
    by_cases hdc : d = c
    · rw [hdc, Function.update_self] at hd
      exact hsnap n hd
    · rw [Function.update_of_ne hdc] at hd
      exact h.snapshot d n hd

/-- A call moves, and the counters that matter here stay. -/
theorem Attended.move (h : s.Attended cfg) (hcalls : s'.calls = Function.update s.calls c x)
    (hstarted : s'.startedCounter = s.startedCounter) (hnum : s'.numWakeups = s.numWakeups)
    (hleads : (s.calls c).pc.leads = true → x.pc.leads = true)
    (hwill : (s.calls c).pc.willNotify = true → x.pc.willNotify = true)
    (hun : x.pc.unnotified s.numWakeups = true → ∃ d, (s.calls d).pc.willNotify = true)
    (hsnap : ∀ n, x.pc.snapshot = some n → n ≤ s.numWakeups) : s'.Attended cfg := by
  refine h.update hcalls (fun hmax => ?_) hnum hwill hun hsnap
  rw [hcalls]
  exact exists_update hleads (h.leader (hstarted ▸ hmax))

/-- Behind a failed `try_update` a call neither leads nor listens yet. -/
theorem Attended.retry (h : s.Attended cfg) (hl : (s.calls c).pc.leads = false)
    (hw : (s.calls c).pc.willNotify = false) :
    (s.goto c (tryUpdate cfg s.startedCounter)).Attended cfg := by
  refine h.move rfl rfl rfl (by rw [hl]; simp) (by rw [hw]; simp) ?_ ?_
  · rw [tryUpdate_flag (fun pc => pc.unnotified s.numWakeups) _ rfl]
    simp [SyncPc.unnotified]
  · rw [tryUpdate_flag SyncPc.snapshot _ rfl]
    simp [SyncPc.snapshot]

/-- The increment to the maximum is made by a leader. -/
theorem Attended.increment (h : s.Attended cfg) {prev : Nat}
    (hpc : (s.calls c).pc = .compareExchange prev) : (s.increment cfg c prev).Attended cfg := by
  have hother {d : CallId} (hd : d ≠ c) : (s.increment cfg c prev).calls d = s.calls d := by
    simp [Sync.increment, Sync.setCall, hd]
  have hself : ((s.increment cfg c prev).calls c).pc =
      if prev + 1 = cfg.gpIdMax then .leaderUnlock else .awaitMutex (prev + 1) := by
    simp [Sync.increment, Sync.setCall]
  refine ⟨fun hmax => ⟨c, ?_⟩, fun d hd => ?_, fun d n hd => ?_⟩
  · have hmax : prev + 1 = cfg.gpIdMax := hmax
    rw [hself, if_pos hmax]
    rfl
  · have hdc : d ≠ c := by
      rintro rfl
      rw [hself] at hd
      split at hd <;> cases hd
    rw [hother hdc] at hd
    obtain ⟨e, he⟩ := h.listener d hd
    have hec : e ≠ c := by
      rintro rfl
      rw [hpc] at he
      cases he
    exact ⟨e, by rwa [hother hec]⟩
  · have hdc : d ≠ c := by
      rintro rfl
      rw [hself] at hd
      split at hd <;> cases hd
    rw [hother hdc] at hd
    exact h.snapshot d n hd

/-- Every listener there is has been reached. -/
theorem Attended.notifyAll (h : s.Attended cfg) (c : CallId) (hpc : (s.calls c).pc = .notify) :
    (s.notifyAll.goto c .awaitRead).Attended cfg := by
  have hother {d : CallId} (hd : d ≠ c) :
      (s.notifyAll.goto c .awaitRead).calls d = (s.calls d).notified := by
    simp [Sync.goto, Sync.setCall, Sync.notifyAll, hd]
  have hself : ((s.notifyAll.goto c .awaitRead).calls c).pc = .awaitRead := by
    simp [Sync.goto, Sync.setCall]
  refine ⟨fun hmax => ?_, fun d hd => ?_, fun d n hd => ?_⟩
  · obtain ⟨d, hd⟩ := h.leader hmax
    have hdc : d ≠ c := by
      rintro rfl
      rw [hpc] at hd
      cases hd
    refine ⟨d, ?_⟩
    rw [hother hdc, notified_flag SyncPc.leads fun _ => rfl]
    exact hd
  · have hdc : d ≠ c := by
      rintro rfl
      rw [hself] at hd
      cases hd
    rw [hother hdc] at hd
    exact absurd hd (Bool.eq_false_iff.mp (SyncPc.unnotified_notified (h.snapshot d)))
  · by_cases hdc : d = c
    · rw [hdc, hself] at hd
      cases hd
    · rw [hother hdc, notified_flag SyncPc.snapshot fun _ => rfl] at hd
      exact Nat.le_succ_of_le (h.snapshot d n hd)

theorem Attended.callStep (h : s.Attended cfg) (hinv : s.Inv cfg)
    (hwrap : NoWrap cfg s (.call c)) (hs : s.callStep cfg c = some s') : s'.Attended cfg := by
  unfold Sync.callStep at hs
  cases hpc : (s.calls c).pc <;> simp only [hpc, Option.some.injEq, reduceCtorEq] at hs
  case awaitRead | awaitWrite =>
    obtain ⟨l, -, rfl⟩ := Option.map_eq_some_iff.mp hs
    refine h.move rfl rfl rfl ?_ ?_ ?_ ?_ <;>
      simp [hpc, SyncPc.leads, SyncPc.willNotify, SyncPc.unnotified, SyncPc.snapshot]
  case load =>
    subst hs
    exact h.retry (by rw [hpc]; rfl) (by rw [hpc]; rfl)
  case compareExchange prev =>
    subst hs
    split
    · exact h.increment hpc
    · exact h.retry (by rw [hpc]; rfl) (by rw [hpc]; rfl)
  case resetStarted =>
    subst hs
    refine h.update rfl (fun hmax => ?_) rfl ?_ ?_ ?_
    · exact absurd hmax (Nat.ne_of_lt cfg.gpIdMax_pos)
    all_goals simp [SyncPc.willNotify, SyncPc.unnotified, SyncPc.snapshot]
  case notify =>
    subst hs
    exact h.notifyAll c hpc
  case listen =>
    subst hs
    have hmax := (hinv.call c).listen hpc
    obtain ⟨d, hd⟩ := h.leader hmax
    refine h.move rfl rfl rfl ?_ ?_ (fun _ => ⟨d, SyncPc.willNotify_of_leads hd⟩) ?_
    · simp [hpc, SyncPc.leads]
    · simp [hpc, SyncPc.willNotify]
    · rintro n ⟨⟩
      exact Nat.le_refl _
  case followerUnlock n =>
    subst hs
    refine h.move rfl rfl rfl ?_ ?_ (fun hu => h.listener c ?_) fun m hm => h.snapshot c m ?_
    · simp [hpc, SyncPc.leads]
    · simp [hpc, SyncPc.willNotify]
    · rw [hpc]
      exact hu
    · rw [hpc]
      exact hm
  case awaitReset n l =>
    have hleave : (s.goto c .awaitRead).Attended cfg := by
      refine h.move rfl rfl rfl ?_ ?_ ?_ ?_ <;>
        simp [hpc, SyncPc.leads, SyncPc.willNotify, SyncPc.unnotified, SyncPc.snapshot]
    split at hs
    · cases hs
      exact hleave
    · rename_i hunchanged
      cases l with
      | unpolled =>
        cases hs
        have hn : s.numWakeups = n := by
          by_contra hne
          exact hunchanged (hwrap n (by rw [hpc]; rfl) hpc hne)
        refine h.move rfl rfl rfl ?_ ?_ (fun _ => h.listener c ?_) fun m hm => h.snapshot c m ?_
        · simp [hpc, SyncPc.leads]
        · simp [hpc, SyncPc.willNotify]
        · rw [hpc]
          exact beq_iff_eq.mpr hn.symm
        · rw [hpc]
          exact hm
      | listed => cases hs
      | woken =>
        cases hs
        exact hleave
  case awaitMutex id =>
    split at hs <;> cases hs
    refine h.move rfl rfl rfl ?_ ?_ ?_ ?_ <;>
      simp [hpc, SyncPc.leads, SyncPc.willNotify, SyncPc.unnotified, SyncPc.snapshot]
  case loadFinished id =>
    subst hs
    split <;> refine h.move rfl rfl rfl ?_ ?_ ?_ ?_ <;>
      simp [hpc, SyncPc.leads, SyncPc.willNotify, SyncPc.unnotified, SyncPc.snapshot]
  all_goals
    subst hs
    refine h.move rfl rfl rfl ?_ ?_ ?_ ?_ <;>
      simp [hpc, SyncPc.leads, SyncPc.willNotify, SyncPc.unnotified, SyncPc.snapshot]

theorem Attended.dropStep (h : s.Attended cfg) (hkeep : s.KeepsLeader (.drop c))
    (hs : s.dropStep c = some s') : s'.Attended cfg := by
  have hlead : (s.calls c).pc.leads = false := hkeep
  unfold Sync.dropStep at hs
  cases hpc : (s.calls c).pc <;> simp only [hpc, Option.some.injEq, reduceCtorEq] at hs <;>
    rw [hpc] at hlead
  case awaitWrite | resetStarted => cases hlead
  all_goals
    subst hs
    refine h.move rfl rfl rfl ?_ ?_ ?_ ?_ <;>
      simp [hpc, SyncPc.leads, SyncPc.willNotify, SyncPc.unnotified, SyncPc.snapshot]

/-- As long as no leader is dropped before it has stored 0, a counter at its
maximum has a leader, and whoever waits for the reset to be done, and has not
been notified, has a leader that has not called `notify` yet. -/
theorem reset_not_orphaned
    (h : (syncMachine cfg).Reach (fun s a => s.KeepsLeader a ∧ NoWrap cfg s a) s) :
    (s.startedCounter = cfg.gpIdMax → ∃ c, (s.calls c).pc.leads = true) ∧
    (∀ c n l, (s.calls c).pc = .awaitReset n l →
      (l = .listed ∨ (l = .unpolled ∧ s.numWakeups = n)) →
        ∃ d, (s.calls d).pc.willNotify = true) := by
  have hatt : s.Attended cfg := by
    refine h.induct (I := Attended cfg) (fun s hs => ?_) fun s a s' hr ih ha hs => ?_
    · subst hs
      refine ⟨fun hmax => absurd hmax (Nat.ne_of_lt cfg.gpIdMax_pos), fun c hc => ?_, fun c n hc => ?_⟩
      · cases hc
      · cases hc
    · obtain ⟨s₁, ha', rfl⟩ := Option.map_eq_some_iff.mp hs
      have h₁ : s₁.Attended cfg := by
        cases a with
        | call c => exact ih.callStep (inv_inductive.reach hr) ha.2 ha'
        | spurious c =>
          simp only [act, spuriousStep] at ha'
          split at ha' <;> cases ha'
          rename_i hpc
          exact ih.retry (by rw [hpc]; rfl) (by rw [hpc]; rfl)
        | drop c => exact ih.dropStep ha.1 ha'
        | other =>
          cases ha'
          exact ih
      exact ⟨h₁.leader, h₁.listener, h₁.snapshot⟩
  refine ⟨hatt.leader, fun c n l hpc hl => hatt.listener c ?_⟩
  rw [hpc]
  rcases hl with rfl | ⟨rfl, hn⟩
  · rfl
  · exact beq_iff_eq.mpr hn.symm

/-- With gp ids of two bits: two calls hold ids, the third leads a reset and
waits for them, and the fourth waits for it. -/
theorem reset_not_orphaned_while_followed :
    ∃ s : Sync, (s.calls 3).pc = .awaitReset 0 .listed ∧
      ∃ d, (s.calls d).pc.willNotify = true := by
  let cfg : Config := { Config.testMode with gpIdBits := 2, gpIdBits_pos := by decide }
  obtain ⟨s, hs, hp⟩ := Lib.Machine.exists_of_runIf (M := syncMachine cfg)
    (fun s a => s.KeepsLeader a ∧ NoWrap cfg s a)
    (List.replicate 4 (.call 0) ++ List.replicate 4 (.call 1) ++ List.replicate 5 (.call 2) ++
      List.replicate 6 (.call 3))
    (fun s => (s.calls 3).pc == .awaitReset 0 .listed) rfl (by decide)
  have hpc := beq_iff_eq.mp hp
  exact ⟨s, hpc, (reset_not_orphaned hs).2 3 0 .listed hpc (.inl rfl)⟩

/-- Once a leader is dropped, the counter is at its maximum and has no leader. -/
theorem dropStep_orphans (h : s.Inv cfg) (hlead : (s.calls c).pc.leads = true)
    (hs : s.dropStep c = some s') :
    s'.startedCounter = cfg.gpIdMax ∧ ∀ d, (s'.calls d).pc.leads = false := by
  have hmax := h.leads c hlead
  have horphan {pc : SyncPc} (hp : pc.leads = false) (d : CallId) :
      ((s.goto c pc).calls d).pc.leads = false := by
    by_cases hdc : d = c
    · simp [Sync.goto, Sync.setCall, hdc, hp]
    · rw [Bool.eq_false_iff]
      intro hd
      simp only [Sync.goto, Sync.setCall, Function.update_of_ne hdc] at hd
      exact hdc (h.leader d c hd hlead)
  unfold Sync.dropStep at hs
  cases hpc : (s.calls c).pc <;> simp only [hpc, Option.some.injEq, reduceCtorEq] at hs <;>
    rw [hpc] at hlead
  case awaitWrite | resetStarted =>
    subst hs
    exact ⟨hmax, horphan rfl⟩
  all_goals cases hlead

/-- A leader is dropped while another call has it wait for the guard for
writing: the counter is at its maximum, and nobody will reset it. -/
theorem dropped_leader_orphans_reset :
    ¬ ∀ s : Sync, (syncMachine Config.testMode).Reach (fun _ _ => True) s →
      (s.startedCounter = Config.testMode.gpIdMax → ∃ c, (s.calls c).pc.leads = true) ∧
      (∀ c n, (s.calls c).pc = .awaitReset n .listed → ∃ d, (s.calls d).pc.willNotify = true) := by
  intro hall
  obtain ⟨s, hs, hq⟩ := exists_quiet (show 253 < Config.testMode.gpIdMax by decide)
  obtain ⟨s₁, h₁, hstarted, -, hlock, -, -, hother⟩ :=
    hq.increment (show 253 + 1 < Config.testMode.gpIdMax by decide)
  have hnew : (s₁.calls 254).pc = .new := by
    rw [hother 254 (by decide)]
    exact hq.fresh 254 (by decide)
  obtain ⟨s₂, h₂, -, -, -, -, hpc, -⟩ := run_increment hnew (by rw [hlock])
    (show s₁.startedCounter < Config.testMode.gpIdMax by rw [hstarted]; decide)
  rw [hstarted, if_pos (by decide)] at hpc
  obtain ⟨s₃, h₃, hpc⟩ : ∃ s₃, (syncMachine Config.testMode).run s₂ [.call 254] = some s₃ ∧
      (s₃.calls 254).pc = .awaitWrite := by
    refine ⟨_, by simp [Lib.Machine.run, syncMachine, Sync.step, Sync.act, Sync.callStep, hpc]; rfl, ?_⟩
    simp [Sync.goto, Sync.setCall, Sync.tick]
  have hr₃ := ((hs.run h₁).run h₂).run h₃
  have hdrop : s₃.dropStep 254 = some (s₃.goto 254 (.ended .dropped)) := by
    simp [Sync.dropStep, hpc]
  obtain ⟨hmax, hnone⟩ := dropStep_orphans (inv_inductive.reach hr₃) (by rw [hpc]; rfl) hdrop
  have hr₄ : (syncMachine Config.testMode).Reach (fun _ _ => True)
      (s₃.goto 254 (.ended .dropped)).tick :=
    .step (a := .drop 254) hr₃ trivial (by simp [syncMachine, Sync.step, Sync.act, hdrop])
  obtain ⟨c, hc⟩ := (hall _ hr₄).1 hmax
  exact absurd hc (Bool.eq_false_iff.mp (hnone c))

end Sync
end TokioRcu
