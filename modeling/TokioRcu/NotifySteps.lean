import TokioRcu.NotifyInvariant

/-!
# The steps of a `Notify` keep its invariant
-/

namespace TokioRcu.Notify

variable {cfg : Config} {s s' : Notify} {f : FutureId} {n : NotifierId}

-- ---------------------------------------------------------------------------
-- Futures
-- ---------------------------------------------------------------------------

theorem Inv.before_list (h : s.Inv cfg) (hpc : (s.futures f).pc.unlisted = true) :
    (s.futures f).wasRegisteredIntoList = false ∧ (s.futures f).isInList = false := by
  have hr := (h.future f).unlisted hpc
  refine ⟨hr, ?_⟩
  rw [Bool.eq_false_iff]
  intro hl
  exact absurd ((h.future f).listed hl).1 (by simp [hr])

/-- A future moves to a place where it waits for nothing. -/
theorem Inv.goto (h : s.Inv cfg) {pc : NotifiedPc}
    (hborn : pc.born = (s.futures f).pc.born) (hlive : pc.live = (s.futures f).pc.live)
    (hunlisted : pc.unlisted = true → (s.futures f).wasRegisteredIntoList = false)
    (hunregister : pc = .unregister → (s.futures f).wasRegisteredIntoList = true)
    (hregister : ∀ w, pc ≠ .register w) (hwaiting : pc.waiting = none) :
    (s.setFuture f { s.futures f with pc := pc }).tick.Inv cfg := by
  have hok := (h.future f).mono (Nat.le_refl s.numWakeups)
  refine h.future_stays { hok with
      listed := hlive ▸ hok.listed
      unlisted := hunlisted
      checked := fun hr => hok.checked (.inl (hr.resolve_right fun ⟨w, hw⟩ => hregister w hw))
      unregister := hunregister
      waiting := fun w hw => absurd hw (by simp [hwaiting])
      pending := fun w hw => absurd hwaiting (by simp [show pc = .pending w from hw, NotifiedPc.waiting]) }
    ⟨rfl, rfl, rfl, rfl, fun hb => hborn ▸ hb, fun hl => hl, fun _ hc => ⟨hlive ▸ hc.1, hc.2⟩⟩ rfl
    ?_ (fun m => Notified.polledAfter_of_not_waiting hwaiting) fun w hw => ?_
  · simp only [Notified.Counted, hlive]
  · rw [show pc.waiting = some w from hw] at hwaiting
    cases hwaiting

theorem Inv.create (h : s.Inv cfg) (hpc : (s.futures f).pc = .absent) :
    (s.setFuture f { s.futures f with pc := .incActive }).tick.Inv cfg := by
  have hr := (h.before_list (f := f) (by rw [hpc]; rfl)).1
  exact h.goto (by rw [hpc]; rfl) (by rw [hpc]; rfl) (fun _ => hr) nofun (by simp) rfl

theorem Inv.incActive (h : s.Inv cfg) (hpc : (s.futures f).pc = .incActive) :
    ({ s with numActiveWaiters := s.numActiveWaiters + 1 }.setFuture f
      { s.futures f with pc := .loadSnapshot }).tick.Inv cfg := by
  obtain ⟨hr, hl⟩ := h.before_list (f := f) (by rw [hpc]; rfl)
  have hok := (h.future f).mono (Nat.le_refl s.numWakeups)
  refine h.future_moves (f := f) rfl rfl rfl rfl rfl { hok with
      listed := by simp [hl], unlisted := fun _ => hr
      checked := by simp [hr], unregister := nofun, waiting := nofun, pending := nofun }
    (fun m => (h.pair f m).keep ⟨rfl, rfl, rfl, rfl, nofun, id, nofun⟩
      (Notified.polledAfter_of_not_waiting rfl))
    (h.list_update rfl) h.nodup (h.active.add (i := f) ?_ fun g => ?_) nofun
  · simp [Notified.Counted, hpc, NotifiedPc.live]
  · by_cases hg : g = f
    · simp [tick, setFuture, hg, Notified.Counted, hr, NotifiedPc.live]
    · simp [tick, setFuture, hg]

/-- `notified` returns. -/
theorem Inv.loadSnapshot (h : s.Inv cfg) (hpc : (s.futures f).pc = .loadSnapshot) :
    (s.setFuture f { s.futures f with
      pc := .fresh, numWakeupsSnapshot := s.numWakeups, createdAt := s.clock }).tick.Inv cfg := by
  obtain ⟨hr, hl⟩ := h.before_list (f := f) (by rw [hpc]; rfl)
  have hok := h.future f
  refine h.future_moves (f := f) rfl rfl rfl rfl rfl {
      snapshot := Nat.le_refl _
      pollAt := Nat.le_succ_of_le hok.pollAt
      registeredAt := by simp [hr]
      listed := by simp [hl]
      waker := by simp [hl]
      unlisted := fun _ => hr
      checked := by simp [hr]
      rechecked := fun v hv => absurd (hok.rechecked v hv).1 (by simp [hr])
      unregister := nofun
      waiting := nofun
      pending := nofun }
    (fun m => Pair.of_created (h.notifier m) (Nat.le_refl s.clock) hl)
    (h.list_update rfl) h.nodup
    (h.active_update (Notified.counted_congr (by rw [hpc]; rfl) rfl rfl)) nofun

/-- A poll begins. -/
theorem Inv.poll (h : s.Inv cfg) (hborn : (s.futures f).pc.born = true)
    (hlive : (s.futures f).pc.live = true) (w : Waker) :
    (s.setFuture f { s.futures f with
      pc := .check w, pollAt := s.clock, woken := [] }).tick.Inv cfg := by
  have hok := (h.future f).mono (Nat.le_refl s.numWakeups)
  refine h.future_stays { hok with
      pollAt := Nat.le_succ _
      listed := fun hl => ⟨(hok.listed hl).1, rfl⟩
      unlisted := nofun
      checked := fun hr => hok.checked (.inl (hr.resolve_right (by simp)))
      unregister := nofun
      waiting := nofun
      pending := nofun }
    ⟨rfl, rfl, rfl, rfl, fun _ => hborn, fun hl => hl, fun _ hc => ⟨hlive, hc.2⟩⟩ rfl
    (Notified.counted_congr hlive.symm rfl rfl)
    (fun m => Notified.polledAfter_of_not_waiting rfl) nofun

/-- The first check passes. -/
theorem Inv.checked (h : s.Inv cfg) {w : Waker} (hpc : (s.futures f).pc = .check w)
    (hc : s.wakeupsChanged cfg (s.futures f) = false) :
    (s.setFuture f { s.futures f with
      pc := .register w
      checked := if (s.futures f).wasRegisteredIntoList then (s.futures f).checked
        else s.numWakeups }).tick.Inv cfg := by
  have hok := (h.future f).mono (Nat.le_refl s.numWakeups)
  have hlive : (s.futures f).pc.live = true := by rw [hpc]; rfl
  refine h.future_stays { hok with
      listed := fun hl => ⟨(hok.listed hl).1, rfl⟩
      unlisted := nofun
      checked := fun _ => ?_
      unregister := nofun
      waiting := nofun
      pending := nofun }
    ⟨rfl, rfl, rfl, rfl, fun _ => by rw [hpc]; rfl, fun hl => hl, fun _ hc => ⟨hlive, hc.2⟩⟩ rfl
    (Notified.counted_congr hlive.symm rfl rfl)
    (fun m => Notified.polledAfter_of_not_waiting rfl) nofun
  simp only [Notified.Looks]
  split
  · rename_i hr
    exact hok.checked (.inl hr)
  · simpa [wakeupsChanged] using hc

/-- A poll leaves its waker in the list, where the future still is. -/
theorem Inv.relisted (h : s.Inv cfg) {w w' : Waker} {waker : Option Waker}
    (hpc : (s.futures f).pc = .register w) (hl : (s.futures f).isInList = true)
    (hwaker : waker = some w') (hw : Notes.Wakes cfg w' w) :
    (s.setFuture f { s.futures f with pc := .recheck w, waker := waker }).tick.Inv cfg := by
  have hok := (h.future f).mono (Nat.le_refl s.numWakeups)
  have hlive : (s.futures f).pc.live = true := by rw [hpc]; rfl
  have hborn : (s.futures f).pc.born = true := by rw [hpc]; rfl
  have hr := (hok.listed hl).1
  refine h.future_stays { hok with
      listed := fun _ => ⟨hr, rfl⟩
      waker := fun _ => ⟨w', hwaker⟩
      unlisted := nofun
      checked := fun _ => hok.checked (.inl hr)
      unregister := nofun
      waiting := fun _ _ => hr
      pending := nofun }
    ⟨rfl, rfl, rfl, rfl, fun _ => hborn, fun hl => hl, fun _ hc => ⟨hlive, hc.2⟩⟩ rfl
    (Notified.counted_congr hlive.symm rfl rfl)
    (fun m hb _ hd _ => ?_) fun w'' hw'' => .inl ⟨w', ?_⟩
  · exact (h.pair f m).drained_before ⟨hborn, hb.2⟩ ⟨hlive, .inr hl⟩ hl hd
  · obtain rfl : w = w'' := Option.some.inj hw''
    simpa [setFuture, hl, hwaker] using hw

/-- A poll puts the future in the list. -/
theorem Inv.listed (h : s.Inv cfg) {w : Waker} (hpc : (s.futures f).pc = .register w)
    (hl : (s.futures f).isInList = false) (hr : (s.futures f).wasRegisteredIntoList = false) :
    ({ s with waitersList := f :: s.waitersList }.setFuture f { s.futures f with
      pc := .recheck w
      isInList := true
      waker := some w
      wasRegisteredIntoList := true
      registeredAt := s.clock }).tick.Inv cfg := by
  have hok := (h.future f).mono (Nat.le_refl s.numWakeups)
  have hborn : (s.futures f).pc.born = true := by rw [hpc]; rfl
  have hnot : f ∉ s.waitersList := by
    rw [h.list f, hl]
    exact Bool.false_ne_true
  have hv : (s.futures f).rechecked = none := by
    rw [Option.eq_none_iff_forall_ne_some]
    intro v hv
    exact absurd (hok.rechecked v hv).1 (by simp [hr])
  have hcheck := hok.checked (.inr ⟨w, hpc⟩)
  refine h.future_moves (f := f) rfl rfl rfl rfl rfl { hok with
      registeredAt := fun _ => Nat.lt_succ_self _
      listed := fun _ => ⟨rfl, rfl⟩
      waker := fun _ => ⟨w, rfl⟩
      unlisted := nofun
      checked := fun _ => hcheck
      rechecked := fun v hv' => absurd hv' (by simp [hv])
      unregister := nofun
      waiting := fun _ _ => rfl
      pending := nofun }
    (fun m => (h.pair f m).register (h.notifier m) hpc hr hv)
    (fun g => ?_) (List.nodup_cons.mpr ⟨hnot, h.nodup⟩) (h.active.congr fun g => ?_)
    fun w' hw' => .inl ⟨w, ?_⟩
  · by_cases hg : g = f
    · simp [tick, setFuture, hg]
    · simpa [tick, setFuture, hg] using h.list g
  · by_cases hg : g = f
    · simp [tick, setFuture, hg, Notified.Counted, NotifiedPc.live, hpc, hr]
    · simp [tick, setFuture, hg]
  · obtain rfl : w = w' := Option.some.inj hw'
    simp [tick, setFuture, Notes.Wakes]

theorem Inv.registered (h : s.Inv cfg) {w : Waker} (hpc : (s.futures f).pc = .register w)
    (hout : (s.futures f).isInList = false → (s.futures f).wasRegisteredIntoList = false) :
    (s.registered cfg f w).tick.Inv cfg := by
  simp only [Notify.registered]
  split
  · rename_i hl
    obtain ⟨w', hw'⟩ := (h.future f).waker hl
    by_cases hwill : cfg.willWake w' w = true
    · exact h.relisted hpc hl (by simp [hw', hwill]) (.inr hwill)
    · exact h.relisted hpc hl (by simp [hw', hwill]) (.inl rfl)
  · rename_i hl
    have hl := Bool.eq_false_of_not_eq_true hl
    exact h.listed hpc hl (hout hl)

/-- The second check passes. -/
theorem Inv.rechecked (h : s.Inv cfg) {w : Waker} (hpc : (s.futures f).pc = .recheck w)
    (hc : s.wakeupsChanged cfg (s.futures f) = false) :
    (s.setFuture f { s.futures f with
      pc := .pending w
      rechecked := some ((s.futures f).rechecked.getD s.numWakeups) }).tick.Inv cfg := by
  have hok := (h.future f).mono (Nat.le_refl s.numWakeups)
  have hborn : (s.futures f).pc.born = true := by rw [hpc]; rfl
  have hwaiting : (s.futures f).pc.waiting = some w := by rw [hpc]; rfl
  have hr := hok.waiting w hwaiting
  refine h.future_moves (f := f) rfl rfl rfl rfl rfl { hok with
      listed := fun hl => ⟨hr, rfl⟩
      unlisted := nofun
      checked := fun _ => hok.checked (.inl hr)
      rechecked := fun v hv => ⟨hr, ?_⟩
      unregister := nofun
      waiting := fun _ _ => hr
      pending := fun _ _ => ⟨_, rfl⟩ }
    (fun m => (h.pair f m).recheck hpc) (h.list_update rfl) h.nodup
    (h.active_update (Notified.counted_congr (by rw [hpc]; rfl) rfl rfl)) fun w' hw' => ?_
  · cases hv' : (s.futures f).rechecked with
    | none =>
      simp only [hv', Option.getD_none, Option.some.injEq] at hv
      subst hv
      simpa [wakeupsChanged, Notified.Looks] using hc
    | some u =>
      simp only [hv', Option.getD_some, Option.some.injEq] at hv
      subst hv
      exact (hok.rechecked u hv').2
  · obtain rfl : w = w' := Option.some.inj hw'
    simpa [tick, setFuture, Reached] using h.reached f w hwaiting

/-- A dropped future leaves the list. -/
theorem Inv.unregister (h : s.Inv cfg) (hpc : (s.futures f).pc = .unregister)
    (hl : (s.futures f).isInList = true) :
    ({ s with
      waitersList := s.waitersList.erase f
      numActiveWaiters := s.numActiveWaiters - 1 }.setFuture f
        { s.futures f with pc := .dropped, isInList := false }).tick.Inv cfg := by
  have hok := (h.future f).mono (Nat.le_refl s.numWakeups)
  have hborn : (s.futures f).pc.born = true := by rw [hpc]; rfl
  have hlive : (s.futures f).pc.live = true := by rw [hpc]; rfl
  have hr := (hok.listed hl).1
  refine h.future_moves (f := f) rfl rfl rfl rfl rfl { hok with
      listed := nofun
      waker := nofun
      unlisted := nofun
      checked := fun _ => hok.checked (.inl hr)
      unregister := nofun
      waiting := nofun
      pending := nofun }
    (fun m => (h.pair f m).keep ⟨rfl, rfl, rfl, rfl, fun _ => hborn, nofun, fun _ hc => nomatch hc.1⟩
      (Notified.polledAfter_of_not_waiting rfl))
    (fun g => ?_) (h.nodup.erase f) (h.active.remove (i := f) ⟨hlive, .inr hl⟩ fun g => ?_) nofun
  · by_cases hg : g = f
    · simp [tick, setFuture, hg, h.nodup.mem_erase_iff]
    · simpa [tick, setFuture, hg, h.nodup.mem_erase_iff] using h.list g
  · by_cases hg : g = f
    · simp [tick, setFuture, hg, Notified.Counted, NotifiedPc.live]
    · simp [tick, setFuture, hg]

/-- A dropped future that is not in the list. -/
theorem Inv.dropped (h : s.Inv cfg) (hborn : (s.futures f).pc.born = true)
    (hcount : ¬ (s.futures f).Counted) :
    (s.setFuture f { s.futures f with pc := .dropped }).tick.Inv cfg := by
  have hok := (h.future f).mono (Nat.le_refl s.numWakeups)
  refine h.future_stays { hok with
      listed := fun hl => absurd ⟨(hok.listed hl).2, .inr hl⟩ hcount
      unlisted := nofun
      checked := fun hr => hok.checked (.inl (hr.resolve_right (by simp)))
      unregister := nofun
      waiting := nofun
      pending := nofun }
    ⟨rfl, rfl, rfl, rfl, fun _ => hborn, id, fun _ hc => nomatch hc.1⟩ rfl ?_
    (fun m => Notified.polledAfter_of_not_waiting rfl) nofun
  exact iff_of_false (fun hc => nomatch hc.1) hcount

theorem Inv.decActive (h : s.Inv cfg) (hpc : (s.futures f).pc = .decActive) :
    ({ s with numActiveWaiters := s.numActiveWaiters - 1 }.setFuture f
      { s.futures f with pc := .dropped }).tick.Inv cfg := by
  have hok := (h.future f).mono (Nat.le_refl s.numWakeups)
  have hborn : (s.futures f).pc.born = true := by rw [hpc]; rfl
  have hlive : (s.futures f).pc.live = true := by rw [hpc]; rfl
  obtain ⟨hr, hl⟩ := h.before_list (f := f) (by rw [hpc]; rfl)
  refine h.future_moves (f := f) rfl rfl rfl rfl rfl { hok with
      listed := by simp [hl]
      unlisted := nofun
      checked := by simp [hr]
      unregister := nofun
      waiting := nofun
      pending := nofun }
    (fun m => (h.pair f m).keep ⟨rfl, rfl, rfl, rfl, fun _ => hborn, id, fun _ hc => nomatch hc.1⟩
      (Notified.polledAfter_of_not_waiting rfl))
    (h.list_update rfl) h.nodup (h.active.remove (i := f) ⟨hlive, .inl hr⟩ fun g => ?_) nofun
  · by_cases hg : g = f
    · simp [tick, setFuture, hg, Notified.Counted, NotifiedPc.live]
    · simp [tick, setFuture, hg]

-- ---------------------------------------------------------------------------
-- Calls of `notify`
-- ---------------------------------------------------------------------------

/-- What a call that is on its way and has drained nothing yet means for a future. -/
theorem Pair.of_undrained {k : Nat} {x : Notified} {y : Notifier} (hpc : y.pc ≠ .done)
    (hd : y.drainedAt = none) (hc : x.Before y → y.pc.increments = true → x.numWakeupsSnapshot < k) :
    Pair k x y where
  early _ h := absurd h hpc
  counter hb hi := hc hb (hi.resolve_right (by simp [hd]))
  listed l hl := absurd hl (by simp [hd])
  rechecked _ l v hl := absurd hl (by simp [hd])
  polled _ _ h := absurd h hpc

theorem Inv.undrained (h : s.Inv cfg) (hu : (s.notifiers n).pc ≠ .unlock)
    (hd : (s.notifiers n).pc ≠ .done) : (s.notifiers n).drainedAt = none := by
  rw [Option.eq_none_iff_forall_ne_some]
  intro l hl
  rcases ((h.notifier n).drained l hl).1 with hpc | hpc
  · exact hu hpc
  · exact hd hpc

/-- The lock, when a call moves that holds it as before. -/
theorem Inv.lock_update (h : s.Inv cfg) {y' : Notifier}
    (hl : y'.pc.locks = (s.notifiers n).pc.locks) (m : NotifierId) :
    s.lock = some m ↔ (Function.update s.notifiers n y' m).pc.locks = true := by
  rw [h.lock m]
  by_cases hm : m = n
  · rw [hm, Function.update_self, hl]
  · rw [Function.update_of_ne hm]

theorem Inv.start (h : s.Inv cfg) (hpc : (s.notifiers n).pc = .new) :
    (s.setNotifier n { s.notifiers n with pc := .loadActive, startedAt := s.clock }).tick.Inv cfg := by
  have hd := h.undrained (n := n) (by simp [hpc]) (by simp [hpc])
  refine h.notifier_moves (n := n) rfl rfl (Nat.le_refl _) rfl rfl rfl
    ⟨Nat.le_succ _, by simp [hd], nofun, nofun⟩ (fun g => Pair.of_undrained nofun hd nofun)
    (h.lock_update (by rw [hpc]; rfl)) (by simp [hpc])

/-- Nobody is counted, and the call returns early. -/
theorem Inv.early (h : s.Inv cfg) (hpc : (s.notifiers n).pc = .loadActive)
    (ha : s.numActiveWaiters = 0) :
    (s.setNotifier n { s.notifiers n with pc := .done, returnedAt := s.clock }).tick.Inv cfg := by
  have hd := h.undrained (n := n) (by simp [hpc]) (by simp [hpc])
  have hok := h.notifier n
  refine h.notifier_moves (n := n) rfl rfl (Nat.le_refl _) rfl rfl rfl
    ⟨Nat.le_succ_of_le hok.startedAt, by simp [hd], nofun, fun _ => Nat.lt_succ_self _⟩ (fun g => ?_)
    (h.lock_update (by rw [hpc]; rfl)) (by simp [hpc])
  refine ⟨fun _ _ _ hc => ?_, fun _ hi => ?_, by simp [hd], by simp [hd], fun _ _ _ hr => ?_⟩
  · have hpos := h.active.pos hc
    omega
  · rcases hi with hi | hi
    · cases hi
    · simp [hd] at hi
  · have hle := (h.future g).pollAt
    have hr : s.clock < (s.futures g).pollAt := hr
    omega

theorem Inv.counted (h : s.Inv cfg) (hpc : (s.notifiers n).pc = .loadActive) :
    (s.setNotifier n { s.notifiers n with pc := .incWakeups }).tick.Inv cfg := by
  have hd := h.undrained (n := n) (by simp [hpc]) (by simp [hpc])
  exact h.notifier_moves (n := n) rfl rfl (Nat.le_refl _) rfl rfl rfl
    ⟨Nat.le_succ_of_le (h.notifier n).startedAt, by simp [hd], nofun, nofun⟩
    (fun g => Pair.of_undrained nofun hd nofun) (h.lock_update (by rw [hpc]; rfl)) (by simp [hpc])

theorem Inv.incWakeups (h : s.Inv cfg) (hpc : (s.notifiers n).pc = .incWakeups) :
    ({ s with numWakeups := s.numWakeups + 1 }.setNotifier n
      { s.notifiers n with pc := .lock }).tick.Inv cfg := by
  have hd := h.undrained (n := n) (by simp [hpc]) (by simp [hpc])
  exact h.notifier_moves (n := n) rfl rfl (Nat.le_succ _) rfl rfl rfl
    ⟨Nat.le_succ_of_le (h.notifier n).startedAt, by simp [hd], nofun, nofun⟩
    (fun g => Pair.of_undrained nofun hd fun _ _ => Nat.lt_succ_of_le (h.future g).snapshot)
    (h.lock_update (by rw [hpc]; rfl)) (by simp [hpc])

theorem Inv.locked (h : s.Inv cfg) (hpc : (s.notifiers n).pc = .lock) (hl : s.lock = none) :
    ({ s with lock := some n }.setNotifier n { s.notifiers n with pc := .pop }).tick.Inv cfg := by
  have hd := h.undrained (n := n) (by simp [hpc]) (by simp [hpc])
  refine h.notifier_moves (n := n) rfl rfl (Nat.le_refl _) rfl rfl rfl
    ⟨Nat.le_succ_of_le (h.notifier n).startedAt, by simp [hd], nofun, nofun⟩
    (fun g => Pair.of_undrained nofun hd fun hb _ => (h.pair g n).counter hb (by simp [hpc, NotifierPc.increments]))
    (fun m => ?_) (by simp [hpc])
  by_cases hm : m = n
  · simp [tick, setNotifier, hm, NotifierPc.locks]
  · have hfree := h.lock m
    rw [hl] at hfree
    simpa [tick, setNotifier, hm, Ne.symm hm] using hfree

/-- The call finds the list empty. -/
theorem Inv.drained (h : s.Inv cfg) (hpc : (s.notifiers n).pc = .pop) (hw : s.waitersList = []) :
    (s.setNotifier n { s.notifiers n with
      pc := .unlock, drainedAt := some s.clock }).tick.Inv cfg := by
  have hok := h.notifier n
  refine h.notifier_moves (n := n) rfl rfl (Nat.le_refl _) rfl rfl rfl
    ⟨Nat.le_succ_of_le hok.startedAt, ?_, fun _ => ⟨_, rfl⟩, nofun⟩ (fun g => ?_)
    (h.lock_update (by rw [hpc]; rfl)) (by simp [hpc])
  · rintro l ⟨⟩
    exact ⟨.inl rfl, hok.startedAt, Nat.lt_succ_self _⟩
  · refine ⟨nofun, fun hb _ => (h.pair g n).counter hb (by simp [hpc, NotifierPc.increments]),
      fun l _ hl => ?_, fun _ l v hl hr hv => ?_, nofun⟩
    · have hg := (h.list g).mpr hl
      rw [hw] at hg
      cases hg
    · cases hl
      have hlt := (h.future g).registeredAt ((h.future g).rechecked v hv).1
      omega

/-- The call returns. -/
theorem Inv.unlock (h : s.Inv cfg) (hpc : (s.notifiers n).pc = .unlock) :
    ({ s with lock := none }.setNotifier n
      { s.notifiers n with pc := .done, returnedAt := s.clock }).tick.Inv cfg := by
  have hok := h.notifier n
  obtain ⟨l, hl⟩ := hok.unlock hpc
  obtain ⟨-, hle, hlt⟩ := hok.drained l hl
  refine h.notifier_moves (n := n) rfl rfl (Nat.le_refl _) rfl rfl rfl
    ⟨Nat.le_succ_of_le hok.startedAt, ?_, nofun, fun _ => Nat.lt_succ_self _⟩ (fun g => ?_) (fun m => ?_) (by simp [hpc])
  · intro l' hl'
    obtain ⟨-, hle, hlt⟩ := hok.drained l' hl'
    exact ⟨.inr rfl, hle, Nat.lt_succ_of_lt hlt⟩
  · have hp := h.pair g n
    refine ⟨fun _ _ hn => ?_, fun hb _ => hp.counter hb (by simp [hl]), hp.listed, hp.rechecked,
      fun _ _ _ hr => ?_⟩
    · rw [show (s.notifiers n).drainedAt = none from hn] at hl
      cases hl
    · have hle := (h.future g).pollAt
      have hr : s.clock < (s.futures g).pollAt := hr
      omega
  · have hn : s.lock = some n := (h.lock n).mpr (by rw [hpc]; rfl)
    by_cases hm : m = n
    · simp [tick, setNotifier, hm, NotifierPc.locks]
    · have hother := h.lock m
      rw [hn] at hother
      simpa [tick, setNotifier, hm, Ne.symm hm] using hother

/-- Nobody has touched the future, and whoever is about to wake it still is. -/
theorem Reached.kept (h : s.Reached cfg f w) (hf : s'.futures f = s.futures f)
    (hw : ∀ m w', (s.notifiers m).pc = .wake f w' → (s'.notifiers m).pc = .wake f w') :
    s'.Reached cfg f w := by
  rcases h with hl | hwoken | ⟨m, w', hm, hww⟩
  · exact .inl (by rwa [hf])
  · exact .inr (.inl (by rwa [hf]))
  · exact .inr (.inr ⟨m, w', hw m w' hm, hww⟩)

/-- The calls that are about to wake `f`, when another call moves. -/
theorem wakes_update {pc : NotifierPc} (hpc : (s.notifiers n).pc = pc)
    (hne : ∀ w', pc ≠ .wake f w') {y' : Notifier} (m : NotifierId) (w' : Waker)
    (hm : (s.notifiers m).pc = .wake f w') :
    (Function.update s.notifiers n y' m).pc = .wake f w' := by
  have hmn : m ≠ n := by
    rintro rfl
    exact hne w' (hpc.symm.trans hm)
  rwa [Function.update_of_ne hmn]

/-- The call takes a future from the list, and its waker. -/
theorem Inv.pop (h : s.Inv cfg) {rest : List FutureId} {w : Waker}
    (hpc : (s.notifiers n).pc = .pop) (hlist : s.waitersList = f :: rest)
    (hw : (s.futures f).waker = some w) :
    (({ s with
      waitersList := rest, numActiveWaiters := s.numActiveWaiters - 1 }.setFuture f
        { s.futures f with isInList := false, waker := none }).setNotifier n
          { s.notifiers n with pc := .wake f w }).tick.Inv cfg := by
  have hd := h.undrained (n := n) (by simp [hpc]) (by simp [hpc])
  have hl : (s.futures f).isInList = true := (h.list f).mp (by rw [hlist]; exact List.mem_cons_self)
  have hok := (h.future f).mono (Nat.le_refl s.numWakeups)
  obtain ⟨hr, hlive⟩ := hok.listed hl
  have hnodup := h.nodup
  rw [hlist, List.nodup_cons] at hnodup
  have hkeeps : (s.futures f).Keeps { s.futures f with isInList := false, waker := none } :=
    ⟨rfl, rfl, rfl, rfl, id, nofun, fun _ hc => ⟨hlive, .inr hl⟩⟩
  have hpy (g : FutureId) (x : Notified)
      (hx : x.Before (s.notifiers n) → x.numWakeupsSnapshot < s.numWakeups) :
      Pair s.numWakeups x { s.notifiers n with pc := .wake f w } :=
    Pair.of_undrained nofun hd fun hb _ => hx hb
  have hinc : (s.notifiers n).pc.increments = true := by rw [hpc]; rfl
  refine h.move (f := f) (n := n) rfl rfl (Nat.le_refl _) rfl { hok with
      listed := nofun
      waker := nofun } ⟨Nat.le_succ_of_le (h.notifier n).startedAt, by simp [hd], nofun, nofun⟩
    (fun m _ => (h.pair f m).keep hkeeps ((h.pair f m).polledAfter hkeeps rfl rfl))
    (fun g _ => hpy g _ fun hb => (h.pair g n).counter hb (.inl hinc))
    (hpy f _ fun hb => (h.pair f n).counter hb (.inl hinc))
    (fun g => ?_) hnodup.2 (h.lock_update (by rw [hpc]; rfl))
    (h.active.remove (i := f) ⟨hlive, .inr hl⟩ fun g => ?_) fun g w' hw' => ?_
  · by_cases hg : g = f
    · simpa [tick, setFuture, setNotifier, hg] using hnodup.1
    · have hmem := h.list g
      rw [hlist, List.mem_cons] at hmem
      simpa [tick, setFuture, setNotifier, hg] using hmem
  · by_cases hg : g = f
    · simp [tick, setFuture, setNotifier, hg, Notified.Counted, hr]
    · simp [tick, setFuture, setNotifier, hg]
  · by_cases hg : g = f
    · subst hg
      have hw' : (s.futures g).pc.waiting = some w' := by
        simpa [tick, setFuture, setNotifier] using hw'
      rcases h.reached g w' hw' with ⟨w'', -, hw'', hww⟩ | hwoken | ⟨m, w'', hm, hww⟩
      · rw [hw] at hw''
        cases hw''
        exact .inr (.inr ⟨n, w, by simp [tick, setNotifier], hww⟩)
      · exact .inr (.inl (by simpa [tick, setFuture, setNotifier] using hwoken))
      · exact .inr (.inr ⟨m, w'', wakes_update hpc (by simp) m w'' hm, hww⟩)
    · have hgf : Function.update s.futures f { s.futures f with isInList := false, waker := none } g =
          s.futures g := Function.update_of_ne hg _ _
      exact (h.reached g w' (hgf ▸ hw')).kept hgf (wakes_update hpc (by simp))

/-- The call wakes the waker it has taken. -/
theorem Inv.wake (h : s.Inv cfg) {w : Waker} (hpc : (s.notifiers n).pc = .wake f w) :
    ((s.setFuture f { s.futures f with woken := w :: (s.futures f).woken }).setNotifier n
      { s.notifiers n with pc := .pop }).tick.Inv cfg := by
  have hd := h.undrained (n := n) (by simp [hpc]) (by simp [hpc])
  have hok := (h.future f).mono (Nat.le_refl s.numWakeups)
  have hinc : (s.notifiers n).pc.increments = true := by rw [hpc]; rfl
  have hkeeps : (s.futures f).Keeps { s.futures f with woken := w :: (s.futures f).woken } :=
    ⟨rfl, rfl, rfl, rfl, id, id, fun _ hc => hc⟩
  refine h.move (f := f) (n := n) rfl rfl (Nat.le_refl _) rfl
    ⟨hok.snapshot, hok.pollAt, hok.registeredAt, hok.listed, hok.waker, hok.unlisted, hok.checked,
      hok.rechecked, hok.unregister, hok.waiting, hok.pending⟩
    ⟨Nat.le_succ_of_le (h.notifier n).startedAt, by simp [hd], nofun, nofun⟩
    (fun m _ => (h.pair f m).keep hkeeps ((h.pair f m).polledAfter hkeeps rfl rfl))
    (fun g _ => Pair.of_undrained nofun hd fun hb _ => (h.pair g n).counter hb (.inl hinc))
    (Pair.of_undrained nofun hd fun hb _ => (h.pair f n).counter hb (.inl hinc))
    (h.list_update rfl) h.nodup (h.lock_update (by rw [hpc]; rfl))
    (h.active_update Iff.rfl) fun g w' hw' => ?_
  by_cases hg : g = f
  · subst hg
    have hw' : (s.futures g).pc.waiting = some w' := by
      simpa [tick, setFuture, setNotifier] using hw'
    rcases h.reached g w' hw' with hl | ⟨w'', hmem, hww⟩ | ⟨m, w'', hm, hww⟩
    · exact .inl (by simpa [tick, setFuture, setNotifier] using hl)
    · exact .inr (.inl ⟨w'', by simp [tick, setFuture, setNotifier, hmem], hww⟩)
    · by_cases hmn : m = n
      · subst hmn
        rw [hpc] at hm
        cases hm
        exact .inr (.inl ⟨w, by simp [tick, setFuture, setNotifier], hww⟩)
      · exact .inr (.inr ⟨m, w'', by simpa [tick, setFuture, setNotifier, hmn] using hm, hww⟩)
  · have hgf : Function.update s.futures f
        { s.futures f with woken := w :: (s.futures f).woken } g = s.futures g :=
      Function.update_of_ne hg _ _
    exact (h.reached g w' (hgf ▸ hw')).kept hgf (wakes_update hpc (by simp [Ne.symm hg]))

-- ---------------------------------------------------------------------------
-- Runs
-- ---------------------------------------------------------------------------

theorem Inv.futureStep (h : s.Inv cfg) (hs : s.futureStep cfg f = some s') : s'.tick.Inv cfg := by
  unfold Notify.futureStep at hs
  cases hpc : (s.futures f).pc <;> simp only [hpc, Option.some.injEq, reduceCtorEq] at hs
  case incActive =>
    subst hs
    exact h.incActive hpc
  case loadSnapshot =>
    subst hs
    exact h.loadSnapshot hpc
  case check w =>
    subst hs
    split
    · exact h.goto (by rw [hpc]; rfl) (by rw [hpc]; rfl) nofun nofun (by simp) rfl
    · rename_i hc
      exact h.checked hpc (Bool.eq_false_of_not_eq_true hc)
  case register w =>
    split at hs <;> cases hs
    split
    · exact h.goto (by rw [hpc]; rfl) (by rw [hpc]; rfl) nofun nofun (by simp) rfl
    · rename_i hout
      exact h.registered hpc fun hl => by simpa [hl] using hout
  case recheck w =>
    subst hs
    split
    · exact h.goto (by rw [hpc]; rfl) (by rw [hpc]; rfl) nofun nofun (by simp) rfl
    · rename_i hc
      exact h.rechecked hpc (Bool.eq_false_of_not_eq_true hc)
  case unregister =>
    split at hs <;> cases hs
    split
    · rename_i hl
      exact h.unregister hpc hl
    · rename_i hl
      refine h.dropped (by rw [hpc]; rfl) fun hc => ?_
      have hr := (h.future f).unregister hpc
      exact hc.2.elim (by simp [hr]) hl
  case decActive =>
    subst hs
    exact h.decActive hpc

theorem Inv.notifierStep (h : s.Inv cfg) (hs : s.notifierStep n = some s') : s'.tick.Inv cfg := by
  unfold Notify.notifierStep at hs
  cases hpc : (s.notifiers n).pc <;> simp only [hpc, Option.some.injEq, reduceCtorEq] at hs
  case loadActive =>
    subst hs
    split
    · rename_i ha
      exact h.early hpc ha
    · exact h.counted hpc
  case incWakeups =>
    subst hs
    exact h.incWakeups hpc
  case lock =>
    split at hs <;> cases hs
    rename_i hl
    exact h.locked hpc hl
  case pop =>
    subst hs
    cases hlist : s.waitersList with
    | nil => exact h.drained hpc hlist
    | cons f rest =>
      obtain ⟨w, hw⟩ := (h.future f).waker ((h.list f).mp (by rw [hlist]; exact List.mem_cons_self))
      simp only [hw]
      exact h.pop hpc hlist hw
  case wake f w =>
    subst hs
    exact h.wake hpc
  case unlock =>
    subst hs
    exact h.unlock hpc

theorem Inv.act (h : s.Inv cfg) {a : NotifyAct} (hs : s.act cfg a = some s') : s'.tick.Inv cfg := by
  unfold Notify.act at hs
  cases a with
  | create f =>
    dsimp only at hs
    split at hs <;> cases hs
    rename_i hpc
    exact h.create hpc
  | poll f w =>
    dsimp only at hs
    split at hs <;> cases hs
    all_goals
      rename_i hpc
      exact h.poll (by rw [hpc]; rfl) (by rw [hpc]; rfl) w
  | drop f =>
    dsimp only at hs
    split at hs <;> cases hs
    all_goals
      rename_i hpc
      split
      · rename_i hr
        exact h.goto (by rw [hpc]; rfl) (by rw [hpc]; rfl) nofun (fun _ => hr) (by simp) rfl
      · rename_i hr
        exact h.goto (by rw [hpc]; rfl) (by rw [hpc]; rfl) (fun _ => Bool.eq_false_of_not_eq_true hr)
          nofun (by simp) rfl
  | future f => exact h.futureStep hs
  | start n =>
    dsimp only at hs
    split at hs <;> cases hs
    rename_i hpc
    exact h.start hpc
  | notifier n => exact h.notifierStep hs

theorem inv_inductive : (notifyMachine cfg).Inductive (fun _ _ => True) (Inv cfg) where
  init s hs := by
    obtain rfl : s = .initial := hs
    exact inv_initial
  step s a s' h _ hs := by
    obtain ⟨s₁, hs₁, rfl⟩ := Option.map_eq_some_iff.mp hs
    exact h.act hs₁

end TokioRcu.Notify
