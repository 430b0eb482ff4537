import TokioRcu.Refinement

/-!
# The wrapping epoch simulates an unbounded one

Runs in tokio's order in which no grace period is abandoned. Every thread's
view is fresh, so the tests of the three waits say what the comparison of the
ideal epoch ids would say, and a grace period that finishes leaves no read
section open that is older than itself.
-/

namespace TokioRcu

variable {cfg : Config} {x : Core × Ideal} {s : Core}

/-- A grace period was begun in the past. -/
theorem Core.since_le (h : (machine cfg).Reach TokioOrder s) :
    ∀ gp ∈ s.gp, gp.since ≤ s.clock := by
  refine h.induct (I := fun s => ∀ gp ∈ s.gp, gp.since ≤ s.clock) (fun s hs => ?_)
    fun s a s' hr ih _ hs => ?_
  · rw [hs.eq]
    nofun
  · obtain ⟨s₁, rfl, hm⟩ := step_move hs
    have keep (hplace : s₁.gp.map Gp.place = s.gp.map Gp.place) (hclock : s₁.clock = s.clock) :
        ∀ gp ∈ s₁.gp, gp.since ≤ s₁.clock + 1 := by
      intro gp hgp
      obtain ⟨gp', hgp', hp⟩ : ∃ gp', s.gp = some gp' ∧ gp'.place = gp.place :=
        Option.map_eq_some_iff.mp (by rw [← hplace, hgp]; rfl)
      have hsince : gp'.since = gp.since := congrArg (fun p => p.2.2) hp
      rw [← hsince, hclock]
      exact Nat.le_succ_of_le (ih gp' hgp')
    show ∀ gp ∈ s₁.gp, gp.since ≤ s₁.clock + 1
    cases hm with
    | @call t k hf => cases k <;> exact keep rfl rfl
    | hook _ hm =>
      have hf := hm.frame (inv_inductive.reach hr)
      exact keep hf.place hf.clock
    | openSection | closeSection | other => exact keep rfl rfl
    | begin =>
      rintro gp ⟨⟩
      exact Nat.le_succ _
    | @poll _ _ g _ _ _ _ hg =>
      rintro gp ⟨⟩
      exact Nat.le_succ_of_le (ih g hg)
    | gp hg _ _ hf =>
      intro gp hgp
      rw [hf.since gp hgp, hf.clock]
      exact Nat.le_succ_of_le (ih _ hg)
    | @abandon g _ _ _ hg =>
      rintro gp ⟨⟩
      exact Nat.le_succ_of_le (ih g hg)

/-- What no step breaks in the view of a thread holds in every run. -/
theorem view_induct {ok : Core × Ideal → Act → Prop} {mayAbandon : View → Prop}
    {p : View → Prop} (h : (idealMachine cfg).Reach ok x) (hok : ∀ x a, ok x a → TokioOrder x.1 a)
    (hab : ∀ x a t, ok x a → x.1.aborts a = true → mayAbandon (view x.1 x.2 t))
    (hinit : ∀ e, cfg.ValidEpochId e → p ⟨.offline, ⟨e, 0⟩, .quiet, False, False⟩)
    (hstep : ∀ v v', p v → View.Step cfg mayAbandon v v' → p v') (t : Tid) :
    p (view x.1 x.2 t) := by
  refine h.induct (I := fun x => p (view x.1 x.2 t)) (fun x hx => ?_)
    fun x a x' hr ih ha hs => ?_
  · obtain ⟨⟨hv, -, hs⟩, hg⟩ := hx
    have hview : view x.1 x.2 t = ⟨.offline, ⟨x.1.curEpochId, 0⟩, .quiet, False, False⟩ := by
      rw [hs, hg]
      simp [view, Core.initial, Thread.fresh, Thread.reader, Ideal.start]
    exact hview ▸ hinit _ hv
  · obtain ⟨hs, hg⟩ := Lib.Machine.track_step.mp hs
    have hr' : (machine cfg).Reach TokioOrder x.1 := hr.of_track hok
    refine hstep _ _ ih ?_
    rw [hg]
    exact view_step (Core.inv_inductive.reach hr') (Core.since_le hr') (hab x a t ha) hs

-- ---------------------------------------------------------------------------
-- No grace period is abandoned
-- ---------------------------------------------------------------------------

/-- Runs in tokio's order in which no grace period is abandoned. -/
def Orderly (s : Core) (a : Act) : Prop := TokioOrder s a ∧ NoAbandon s a

instance (s : Core) (a : Act) : Decidable (Orderly s a) :=
  inferInstanceAs (Decidable (TokioOrder s a ∧ NoAbandon s a))

theorem view_fresh (h : (idealMachine cfg).Reach (fun x => Orderly x.1) x) (t : Tid) :
    (view x.1 x.2 t).Fresh cfg := by
  refine view_induct h (fun _ _ ha => ha.1) (fun x a t ha hb => ?_) (fun e he => ?_)
    (fun v v' hv hs => hv.step hs) t
  · exact absurd hb (by rw [ha.2]; nofun)
  · have hpos : 0 < e := Nat.lt_of_lt_of_le (by decide) he.min_le
    exact ⟨hpos, nofun, nofun, nofun, False.elim⟩

/-- A grace period that is done has outlived the sections it found open. -/
theorem Core.since_le_section (h : (machine cfg).Reach Orderly s) {gp : Gp} (hgp : s.gp = some gp)
    (hpc : gp.pc = .finished) (t : Tid) : ∀ o ∈ (s.threads t).sections, gp.since ≤ o := by
  intro o ho
  obtain ⟨g, hg⟩ := h.exists_track Ideal.start Ideal.next
  have hf : (view s g t).Fresh cfg := view_fresh hg t
  have hphase : (view s g t).phase = .done := by simp [view, hgp, hpc, GpPc.phase]
  by_contra hlt
  obtain ⟨seen, -, hq | ⟨hd, -⟩⟩ := hf.held ⟨gp, hgp, o, ho, Nat.lt_of_not_le hlt⟩
  · rw [hphase] at hq
    cases hq
  · exact hd hphase

section
variable {th : Thread} {slots : SlotId → Nat} {seen loaded : Nat} {i : SlotId} {e e' : Nat}

theorem Thread.published_mem (h : th.slot = some i)
    (hd : ThreadState.decode (slots i) = some ⟨e, true⟩) (hne : e ≠ 0) :
    ⟨e, seen⟩ ∈ (th.reader slots seen loaded).stamps := by
  obtain ⟨k, rfl⟩ := Nat.exists_eq_succ_of_ne_zero hne
  cases hl : th.pc.loaded <;> simp [reader, h, hd, hl, Reader.stamps]

end

/-- A slot that is in use is somebody's. -/
theorem Core.Inv.exists_owner (h : s.Inv cfg) {i : SlotId} {st : ThreadState}
    (hd : ThreadState.decode (s.slots i) = some st) : ∃ t, (s.threads t).slot = some i := by
  by_contra hno
  rw [h.vacant i fun t ht => hno ⟨t, ht⟩] at hd
  cases hd

theorem Core.Inv.nextEpochId_lt (h : s.Inv cfg) {gp : Gp} (hgp : s.gp = some gp) {orig : Nat}
    (hpc : gp.pc = .storeNext orig) : orig + 2 < 2 ^ cfg.epochIdBits := by
  have hok := (h.gp gp hgp).epoch
  rw [hpc] at hok
  obtain ⟨rfl, hne⟩ := hok
  have hle := (h.epoch.next hne).le_max
  have hmax := cfg.six_le_epochIdMax
  simp only [Config.epochIdMax] at *
  omega

/-- The epoch ids behave as if they were never reset. -/
theorem epoch_simulates_ideal (h : (idealMachine cfg).Reach (fun x => Orderly x.1) x) :
    (∀ gp ∈ x.1.gp, ∀ w sub self len k, gp.pc = .scan w sub self len k →
      ∀ i e, ThreadState.decode (x.1.slots i) = some ⟨e, true⟩ → e ≠ 0 →
        ∃ t, (x.1.threads t).slot = some i ∧ (w.predicate e = true ↔ x.2.epoch ≤ x.2.seen t)) ∧
    cfg.ValidEpochId x.1.curEpochId ∧
    (∀ gp ∈ x.1.gp, ∀ orig, gp.pc = .storeNext orig → orig + 2 < 2 ^ cfg.epochIdBits) ∧
    (x.1.gp = none → ∀ i e, ThreadState.decode (x.1.slots i) = some ⟨e, true⟩ →
      e = 0 ∨ e = x.1.curEpochId) := by
  have hinv : x.1.Inv cfg :=
    Core.inv_inductive.reach (h.of_track fun _ _ ha => ha.1)
  refine ⟨?_, hinv.epoch, fun gp hgp orig hpc => hinv.nextEpochId_lt hgp hpc, ?_⟩
  · intro gp hgp w sub self len k hpc i e hd hne
    obtain ⟨t, ht⟩ := hinv.exists_owner hd
    refine ⟨t, ht, ?_⟩
    have hf := view_fresh h t
    have hphase : (view x.1 x.2 t).phase = w.phase := by
      have hgp : x.1.gp = some gp := hgp
      simp [view, hgp, hpc, GpPc.phase]
    have hw : w.epochId = x.1.curEpochId :=
      (GpPc.epochOk_of_wait (by rw [hpc]; rfl)).mp (hinv.gp gp hgp).epoch
    have hwait : w.phase = .advanced ∨ w.phase = .reset ∨ w.phase = .left := by
      cases w <;> simp [Wait.phase]
    have hknows := hf.knows _ (Thread.published_mem ht hd hne)
    have hcur := hf.curOk
    rw [hphase] at hknows hcur
    have hpred : w.predicate e = true ↔ w.phase.Accepts ⟨x.1.curEpochId, x.2.epoch⟩ e :=
      Wait.predicate_iff hw
    exact hpred.trans (hknows.accepts_iff hcur hwait)
  · intro hgp i e hd
    obtain ⟨t, ht⟩ := hinv.exists_owner hd
    by_cases hne : e = 0
    · exact .inl hne
    · have hknows := (view_fresh h t).knows _ (Thread.published_mem ht hd hne)
      have hphase : (view x.1 x.2 t).phase = .quiet := by simp [view, hgp]
      rw [hphase] at hknows
      exact .inr (congrArg Stamp.val (hknows.resolve_right id))

/-- Thread 0 enters its first poll at the maximal epoch id, and a task that it
polls begins a grace period: the reset is about to scan. -/
theorem epoch_simulates_ideal_at_reset :
    ∃ x : Core × Ideal, (∃ gp ∈ x.1.gp, ∃ sub, gp.pc = .scan .reset sub 0 1 0) ∧
      ThreadState.decode (x.1.slots 0) = some ⟨Config.testMode.epochIdMax, true⟩ ∧
      ∃ t, (x.1.threads t).slot = some 0 ∧
        (Wait.reset.predicate Config.testMode.epochIdMax = true ↔ x.2.epoch ≤ x.2.seen t) := by
  have hinit : (idealMachine Config.testMode).init
      (Core.initial Config.testMode.epochIdMax, Ideal.start) :=
    ⟨⟨by decide, by decide, rfl⟩, rfl⟩
  let sub : Subscriber := { snapshot := 0, hadAlreadyRegistered := false, consumed := false }
  obtain ⟨x, hx, hp⟩ := Lib.Machine.exists_of_runIf (fun x a => Orderly x.1 a)
    (Act.firstPoll 0 ++ [.begin 0 0] ++ List.replicate 6 .gp)
    (fun x => x.1.gp.map Gp.pc == some (.scan .reset sub 0 1 0) &&
      ThreadState.decode (x.1.slots 0) == some ⟨Config.testMode.epochIdMax, true⟩)
    hinit (by decide)
  simp only [Bool.and_eq_true, beq_iff_eq] at hp
  obtain ⟨gp, hgp, hpc⟩ := Option.map_eq_some_iff.mp hp.1
  exact ⟨x, ⟨gp, hgp, sub, hpc⟩, hp.2,
    (epoch_simulates_ideal hx).1 gp hgp .reset sub 0 1 0 hpc 0 _ hp.2 (by decide)⟩

end TokioRcu
