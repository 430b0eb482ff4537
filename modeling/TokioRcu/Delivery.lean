import TokioRcu.NotifySteps

/-!
# Every notification reaches every listener

A future that was there before a call of `notify` started is notified by it:
once the call is through, the next poll of the future returns, and it returns
`Ready`. If it has been polled before, the waker of that poll is woken. The
exception is a future that was put in the list only after the call had drained
it, in a poll that found `num_wakeups` at its snapshot again.
-/

namespace TokioRcu

/-- The first poll of the future put it in the list after the call had drained
the list, and both of its looks at the counter found it come round. -/
def Notified.Missed (cfg : Config) (x : Notified) (y : Notifier) : Prop :=
  ∃ l, y.drainedAt = some l ∧ l < x.registeredAt ∧ x.Looks cfg x.checked ∧
    ∃ v, x.rechecked = some v ∧ x.numWakeupsSnapshot < v ∧ x.Looks cfg v

namespace Notify

variable {cfg : Config} {s s' : Notify} {f : FutureId} {n m : NotifierId} {w : Waker}

/-- Neither what the future's latest poll was nor the call has changed. -/
structure Same (f : FutureId) (n : NotifierId) (s s' : Notify) : Prop where
  createdAt : (s'.futures f).createdAt = (s.futures f).createdAt
  pollAt : (s'.futures f).pollAt = (s.futures f).pollAt
  notifier : s'.notifiers n = s.notifiers n

theorem Same.trans (h : Same f n s s') (h' : Same f n s' s'') : Same f n s s'' :=
  ⟨h'.createdAt.trans h.createdAt, h'.pollAt.trans h.pollAt, h'.notifier.trans h.notifier⟩

/-- The machine runs from `s` to `s'` by steps of `f` itself and of calls of `notify`. -/
def Runs (cfg : Config) (f : FutureId) (s s' : Notify) : Prop :=
  ∃ as, (notifyMachine cfg).run s as = some s' ∧ ∀ a ∈ as, a = .future f ∨ ∃ m, a = .notifier m

theorem Runs.refl : Runs cfg f s s := ⟨[], rfl, by simp⟩

theorem Runs.step {a : NotifyAct} (ha : a = .future f ∨ ∃ m, a = .notifier m)
    (hs : s.act cfg a = some s') (h : Runs cfg f s'.tick s'') : Runs cfg f s s'' := by
  obtain ⟨as, hrun, has⟩ := h
  refine ⟨a :: as, ?_, List.forall_mem_cons.mpr ⟨ha, has⟩⟩
  simp [Lib.Machine.run, notifyMachine, Notify.step, hs] at hrun ⊢
  exact hrun

theorem Runs.trans (h : Runs cfg f s s') (h' : Runs cfg f s' s'') : Runs cfg f s s'' := by
  obtain ⟨as, hrun, has⟩ := h
  obtain ⟨bs, hrun', hbs⟩ := h'
  refine ⟨as ++ bs, ?_, List.forall_mem_append.mpr ⟨has, hbs⟩⟩
  rw [Lib.Machine.run_append, hrun]
  exact hrun'

theorem Runs.reach (h : Runs cfg f s s') (hr : (notifyMachine cfg).Reach (fun _ _ => True) s) :
    (notifyMachine cfg).Reach (fun _ _ => True) s' := by
  obtain ⟨as, hrun, -⟩ := h
  exact hr.run hrun

-- ---------------------------------------------------------------------------
-- Polls return
-- ---------------------------------------------------------------------------

/-- What a future sees of a run that frees the lock. -/
def Freed (cfg : Config) (f : FutureId) (n : NotifierId) (s : Notify) : Prop :=
  ∃ s', Runs cfg f s s' ∧ s'.lock = none ∧ (s'.futures f).pc = (s.futures f).pc ∧ Same f n s s'

theorem Freed.step (hs : s.act cfg (.notifier m) = some s')
    (hpc : (s'.futures f).pc = (s.futures f).pc) (hsame : Same f n s s'.tick)
    (h : Freed cfg f n s'.tick) : Freed cfg f n s := by
  obtain ⟨s'', hrun, hlock, hpc', hsame'⟩ := h
  exact ⟨s'', .step (.inr ⟨m, rfl⟩) hs hrun, hlock, hpc'.trans hpc, hsame.trans hsame'⟩

theorem freed_of_unlock (hnm : n ≠ m) (hpc : (s.notifiers m).pc = .unlock) : Freed cfg f n s := by
  have hs : s.act cfg (.notifier m) = some ({ s with lock := none }.setNotifier m
      { s.notifiers m with pc := .done, returnedAt := s.clock }) := by
    simp only [act, notifierStep, hpc]
  have hsame : (Function.update s.notifiers m
      { s.notifiers m with pc := .done, returnedAt := s.clock }) n = s.notifiers n :=
    Function.update_of_ne hnm _ _
  exact .step hs rfl ⟨rfl, rfl, hsame⟩ ⟨_, .refl, rfl, rfl, rfl, rfl, rfl⟩

theorem freed_of_wake (hnm : n ≠ m) {g : FutureId} (hpc : (s.notifiers m).pc = .wake g w)
    (h : ∀ s' : Notify, s'.waitersList = s.waitersList → (s'.notifiers m).pc = .pop →
      Freed cfg f n s') : Freed cfg f n s := by
  have hs : s.act cfg (.notifier m) = some ((s.setFuture g
      { s.futures g with woken := w :: (s.futures g).woken }).setNotifier m
        { s.notifiers m with pc := .pop }) := by
    simp only [act, notifierStep, hpc]
  refine .step hs ?_ ⟨?_, ?_, ?_⟩ (h _ rfl (by simp [tick, setNotifier]))
  all_goals by_cases hfg : f = g <;> simp [tick, setNotifier, setFuture, hfg, hnm]

/-- The list gets shorter with every waiter that is woken. -/
theorem freed_of_pop (hnm : n ≠ m) (l : List FutureId) (s : Notify) (hl : s.waitersList = l)
    (hpc : (s.notifiers m).pc = .pop) : Freed cfg f n s := by
  induction l generalizing s with
  | nil =>
    have hs : s.act cfg (.notifier m) = some (s.setNotifier m
        { s.notifiers m with pc := .unlock, drainedAt := some s.clock }) := by
      simp only [act, notifierStep, hpc, hl]
    exact .step hs rfl ⟨rfl, rfl, by simp [tick, setNotifier, hnm]⟩
      (freed_of_unlock hnm (by simp [tick, setNotifier]))
  | cons g rest ih =>
    have hs : s.act cfg (.notifier m) = some (({ s with
        waitersList := rest, numActiveWaiters := s.numActiveWaiters - 1 }.setFuture g
          { s.futures g with isInList := false, waker := none }).setNotifier m
            { s.notifiers m with pc := .afterPop g (s.futures g).waker }) := by
      simp only [act, notifierStep, hpc, hl]
    refine .step hs ?_ ⟨?_, ?_, ?_⟩ ?_
    case refine_5 =>
      cases hw : (s.futures g).waker with
      | none => exact ih _ rfl (by simp [tick, setNotifier, NotifierPc.afterPop])
      | some w =>
        have hwake (s' : Notify) (hl' : s'.waitersList = rest) := ih s' hl'
        exact freed_of_wake (w := w) (g := g) hnm (by simp [tick, setNotifier, NotifierPc.afterPop]) hwake
    all_goals by_cases hfg : f = g <;> simp [tick, setNotifier, setFuture, hfg, hnm]

/-- Whoever holds the lock wakes everybody in the list, and gives it up. -/
theorem Inv.freed (h : s.Inv cfg) (hn : (s.notifiers n).pc = .done) (f : FutureId) :
    Freed cfg f n s := by
  cases hm : s.lock with
  | none => exact ⟨s, .refl, hm, rfl, rfl, rfl, rfl⟩
  | some m =>
    have hlocks := (h.lock m).mp hm
    have hnm : n ≠ m := by
      rintro rfl
      rw [hn] at hlocks
      cases hlocks
    cases hpc : (s.notifiers m).pc with
    | pop => exact freed_of_pop hnm _ s rfl hpc
    | wake g w => exact freed_of_wake hnm hpc fun s' _ hpc' => freed_of_pop hnm _ s' rfl hpc'
    | unlock => exact freed_of_unlock hnm hpc
    | _ => simp [hpc, NotifierPc.locks] at hlocks

/-- The poll has returned, and nothing else has happened to the future. -/
def Returns (cfg : Config) (f : FutureId) (n : NotifierId) (w : Waker) (s : Notify) : Prop :=
  ∃ s', Runs cfg f s s' ∧ Same f n s s' ∧
    ((s'.futures f).pc = .ready ∨ (s'.futures f).pc = .pending w)

theorem Returns.step {x : Notified} {s₁ : Notify} (hs : s.futureStep cfg f = some s₁)
    (hf : s₁.futures = Function.update s.futures f x) (hn : s₁.notifiers = s.notifiers)
    (hc : x.createdAt = (s.futures f).createdAt) (hp : x.pollAt = (s.futures f).pollAt)
    (h : Returns cfg f n w s₁.tick) : Returns cfg f n w s := by
  obtain ⟨s', hrun, hsame, hpc⟩ := h
  refine ⟨s', .step (.inl rfl) hs hrun, Same.trans ⟨?_, ?_, ?_⟩ hsame, hpc⟩
  · simp [tick, hf, hc]
  · simp [tick, hf, hp]
  · simp [tick, hn]

theorem returns_of_ready (hpc : (s.futures f).pc = .ready) : Returns cfg f n w s :=
  ⟨s, .refl, ⟨rfl, rfl, rfl⟩, .inl hpc⟩

theorem returns_of_recheck (hpc : (s.futures f).pc = .recheck w) : Returns cfg f n w s := by
  have hs : s.futureStep cfg f = some (s.setFuture f (if s.wakeupsChanged cfg (s.futures f) then
      { s.futures f with pc := .ready } else { s.futures f with
        pc := .pending w
        rechecked := some ((s.futures f).rechecked.getD s.numWakeups) })) := by
    simp only [futureStep, hpc]
  refine .step hs rfl rfl ?_ ?_ ⟨_, .refl, ⟨rfl, rfl, rfl⟩, ?_⟩
  all_goals
    by_cases hc : s.wakeupsChanged cfg (s.futures f) = true <;> simp [tick, setFuture, hc]

theorem returns_of_register (hpc : (s.futures f).pc = .register w) (hl : s.lock = none) :
    Returns cfg f n w s := by
  by_cases hout : (!(s.futures f).isInList && (s.futures f).wasRegisteredIntoList) = true
  · have hs : s.futureStep cfg f = some (s.setFuture f { s.futures f with pc := .ready }) := by
      simp only [futureStep, hpc, hl, hout, ↓reduceIte]
    exact .step hs rfl rfl rfl rfl (returns_of_ready (by simp [tick, setFuture]))
  · have hs : s.futureStep cfg f = some (s.registered cfg f w) := by
      simp only [futureStep, hpc, hl, hout, ↓reduceIte, Bool.false_eq_true]
    unfold registered at hs
    by_cases hin : (s.futures f).isInList = true
    · simp only [hin, ↓reduceIte] at hs
      exact .step hs rfl rfl rfl rfl (returns_of_recheck (by simp [tick, setFuture]))
    · simp only [hin, Bool.false_eq_true, ↓reduceIte] at hs
      exact .step hs rfl rfl rfl rfl (returns_of_recheck (by simp [tick, setFuture]))

/-- A poll returns, whatever the calls of `notify` are doing. -/
theorem returns_of_check (hr : (notifyMachine cfg).Reach (fun _ _ => True) s)
    (hpc : (s.futures f).pc = .check w) (hn : (s.notifiers n).pc = .done) :
    Returns cfg f n w s := by
  by_cases hc : s.wakeupsChanged cfg (s.futures f) = true
  · have hs : s.futureStep cfg f = some (s.setFuture f { s.futures f with pc := .ready }) := by
      simp only [futureStep, hpc, hc, ↓reduceIte]
    exact .step hs rfl rfl rfl rfl (returns_of_ready (by simp [tick, setFuture]))
  · have hs : s.futureStep cfg f = some (s.setFuture f { s.futures f with
        pc := .register w
        checked := if (s.futures f).wasRegisteredIntoList then (s.futures f).checked
          else s.numWakeups }) := by
      simp only [futureStep, hpc, hc, ↓reduceIte, Bool.false_eq_true]
    refine .step hs rfl rfl rfl rfl ?_
    have hr₁ : (notifyMachine cfg).Reach (fun _ _ => True) _ :=
      .step (a := .future f) hr trivial (congrArg (Option.map tick) hs)
    obtain ⟨s₂, hrun, hlock, hpc₂, hsame⟩ := (inv_inductive.reach hr₁).freed (n := n) hn f
    have hreturns : Returns cfg f n w s₂ :=
      returns_of_register (hpc₂.trans (by simp [tick, setFuture])) hlock
    obtain ⟨s₃, hrun', hsame', hpc₃⟩ := hreturns
    exact ⟨s₃, hrun.trans hrun', hsame.trans hsame', hpc₃⟩

-- ---------------------------------------------------------------------------
-- Delivery
-- ---------------------------------------------------------------------------

theorem Inv.missed_of_listed (h : s.Inv cfg) (hb : (s.futures f).Before (s.notifiers n))
    (hpc : (s.futures f).pc = .pending w) {l : Nat} (hd : (s.notifiers n).drainedAt = some l)
    (hl : l < (s.futures f).registeredAt) : (s.futures f).Missed cfg (s.notifiers n) := by
  have hok := h.future f
  obtain ⟨v, hv⟩ := hok.pending w hpc
  obtain ⟨hr, hlooks⟩ := hok.rechecked v hv
  exact ⟨l, hd, hl, hok.checked (.inl hr), v, hv, (h.pair f n).rechecked hb l v hd hl hv, hlooks⟩

/-- A poll that began after the call had returned. -/
theorem Inv.missed_of_late (h : s.Inv cfg) (hb : (s.futures f).Before (s.notifiers n))
    (hdone : (s.notifiers n).pc = .done) (hpc : (s.futures f).pc = .pending w)
    (hlt : (s.notifiers n).returnedAt < (s.futures f).pollAt) :
    (s.futures f).Missed cfg (s.notifiers n) := by
  obtain ⟨l, hd, hl⟩ := (h.pair f n).polled hb (by rw [hpc]; rfl) hdone hlt
  exact h.missed_of_listed hb hpc hd hl

/-- Once a call of `notify` has returned, a future that was there before it
started is notified by the next poll, and its waker has been woken or is about
to be, unless the future was missed; and no future is missed that was in the
list before the call started. -/
theorem notification_delivered (hr : (notifyMachine cfg).Reach (fun _ _ => True) s)
    (hb : (s.futures f).Before (s.notifiers n)) (hdone : (s.notifiers n).pc = .done) :
    (∀ w, (s.futures f).pc = .fresh ∨ (∃ w', (s.futures f).pc = .pending w') →
      ∃ s₁ s', s.step cfg (.poll f w) = some s₁ ∧ Runs cfg f s₁ s' ∧
        ((s'.futures f).pc = .ready ∨ (s'.futures f).Missed cfg (s'.notifiers n))) ∧
    (∀ w, (s.futures f).pc = .pending w → (s.notifiers n).returnedAt < (s.futures f).pollAt →
      (s.futures f).Missed cfg (s.notifiers n)) ∧
    (∀ w, (s.futures f).pc = .pending w →
      (∃ w' ∈ (s.futures f).woken, Notes.Wakes cfg w' w) ∨
      (∃ m w', (s.notifiers m).pc = .wake f w' ∧ Notes.Wakes cfg w' w) ∨
      (s.futures f).Missed cfg (s.notifiers n)) ∧
    ((s.futures f).registeredAt ≤ (s.notifiers n).startedAt →
      ¬ (s.futures f).Missed cfg (s.notifiers n)) := by
  have hinv : s.Inv cfg := inv_inductive.reach hr
  refine ⟨fun w hpc => ?_, fun w hpc hlt => hinv.missed_of_late hb hdone hpc hlt, fun w hpc => ?_,
    fun hle hmissed => ?_⟩
  · have hs : s.act cfg (.poll f w) = some (s.setFuture f { s.futures f with
        pc := .check w, pollAt := s.clock, woken := [] }) := by
      rcases hpc with hpc | ⟨w', hpc⟩ <;> simp only [act, hpc]
    have hs₁ := congrArg (Option.map tick) hs
    have hr₁ : (notifyMachine cfg).Reach (fun _ _ => True) _ := .step (a := .poll f w) hr trivial hs₁
    obtain ⟨s', hrun, hsame, hpc'⟩ :=
      returns_of_check (f := f) (n := n) (w := w) hr₁ (by simp [tick, setFuture]) hdone
    refine ⟨_, s', hs₁, hrun, hpc'.imp_right fun hpc' => ?_⟩
    have hn : s'.notifiers n = s.notifiers n := hsame.notifier
    have hcreated : (s'.futures f).createdAt = (s.futures f).createdAt := by
      simpa [tick, setFuture] using hsame.createdAt
    have hpoll : (s'.futures f).pollAt = s.clock := by
      simpa [tick, setFuture] using hsame.pollAt
    refine (inv_inductive.reach (hrun.reach hr₁)).missed_of_late ⟨?_, ?_⟩ (hn ▸ hdone) hpc' ?_
    · rw [hpc']
      rfl
    · rw [hn, hcreated]
      exact hb.2
    · rw [hn, hpoll]
      exact (hinv.notifier n).returnedAt hdone
  · rcases hinv.reached f w (by rw [hpc]; rfl) with ⟨-, hl, -⟩ | hwoken | hwake
    · obtain ⟨l, hd, hlt⟩ :=
        (hinv.pair f n).drained_before hb ⟨by rw [hpc]; rfl, .inr hl⟩ hl hdone
      exact .inr (.inr (hinv.missed_of_listed hb hpc hd hlt))
    · exact .inl hwoken
    · exact .inr (.inl hwake)
  · obtain ⟨l, hd, hl, -⟩ := hmissed
    have hle' := ((hinv.notifier n).drained l hd).2.1
    omega

/-- A future is polled with waker 7 and sleeps; the call of `notify` wakes it. -/
theorem notification_delivered_once :
    ∃ s : Notify, (s.futures 0).pc = .pending 7 ∧ (s.notifiers 0).pc = .done ∧
      ∀ w, ∃ s₁ s', s.step Config.testMode (.poll 0 w) = some s₁ ∧ Runs Config.testMode 0 s₁ s' ∧
        ((s'.futures 0).pc = .ready ∨ (s'.futures 0).Missed Config.testMode (s'.notifiers 0)) := by
  obtain ⟨s, hs, hp⟩ := Lib.Machine.exists_of_runIf (M := notifyMachine Config.testMode)
    (fun _ _ => True)
    ([.create 0, .future 0, .future 0, .poll 0 7, .future 0, .future 0, .future 0, .start 0] ++
      List.replicate 7 (.notifier 0))
    (fun s => (s.futures 0).pc == .pending 7 && (s.notifiers 0).pc == .done &&
      (s.futures 0).createdAt < (s.notifiers 0).startedAt) rfl (by decide)
  simp only [Bool.and_eq_true, beq_iff_eq, decide_eq_true_eq] at hp
  obtain ⟨⟨hpc, hdone⟩, hlt⟩ := hp
  have hb : (s.futures 0).Before (s.notifiers 0) := ⟨by rw [hpc]; rfl, hlt⟩
  exact ⟨s, hpc, hdone, fun w => (notification_delivered hs hb hdone).1 w (.inr ⟨7, hpc⟩)⟩

end Notify
end TokioRcu
