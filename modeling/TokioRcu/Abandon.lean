import TokioRcu.Epochs

/-!
# Abandoned grace periods

A grace period that is dropped or panics leaves its epoch id behind. After an
increment that is harmless. In the middle of a reset it is not: the epoch id
has gone down to its minimum, and threads that have not yet looked still hold
the maximum. `AbandonSafe` is the condition under which nothing is left over.
-/

namespace TokioRcu

variable {cfg : Config} {x : Core × Ideal}

/-- The performer is in `synchronize_rcu_epoch_overflow`, past its first store. -/
def Core.resetting (s : Core) : Bool :=
  s.gp.any fun gp => gp.pc.wait == some .reset || gp.pc == .storeLeave || gp.pc.wait == some .leave

/-- What thread `t` shows as busy with, and what it has loaded and not yet stored. -/
def Core.heldEpochIds (s : Core) (t : Tid) : List Nat :=
  match (s.threads t).slot with
  | none => []
  | some i =>
    match ThreadState.decode (s.slots i) with
    | some ⟨e, true⟩ => e :: (s.threads t).pc.loaded.toList
    | _ => []

/-- When a reset is abandoned, no thread still holds an epoch id from before it. -/
def AbandonSafe (s : Core) (a : Act) : Prop :=
  s.aborts a = true → s.resetting = true → ∀ t, ∀ e ∈ s.heldEpochIds t, e ≤ s.curEpochId

theorem stamps_subset_held {s : Core} {g : Ideal} {t : Tid} :
    ∀ st ∈ (view s g t).reader.stamps, st.val ∈ s.heldEpochIds t := by
  intro st hst
  simp only [view, Thread.reader] at hst
  unfold Core.heldEpochIds
  cases hslot : (s.threads t).slot with
  | none => simp [hslot, Reader.stamps] at hst
  | some i =>
    simp only [hslot] at hst
    cases hd : ThreadState.decode (s.slots i) with
    | none => simp [hd, Reader.stamps] at hst
    | some th =>
      obtain ⟨e, b⟩ := th
      cases b with
      | false => cases e <;> simp [hd, Reader.stamps] at hst
      | true =>
        cases hl : (s.threads t).pc.loaded <;> cases e <;>
          simp [hd, hl, Reader.stamps] at hst ⊢ <;> grind

theorem resetting_of_phase {s : Core} {g : Ideal} {t : Tid}
    (h : (view s g t).phase = .reset ∨ (view s g t).phase = .left) : s.resetting = true := by
  simp only [view] at h
  cases hgp : s.gp with
  | none => simp [hgp] at h
  | some gp =>
    have hw {w : Wait} (hw : w.phase = .reset ∨ w.phase = .left) : w = .reset ∨ w = .leave := by
      cases w <;> simp [Wait.phase] at hw ⊢
    simp only [hgp, Option.map_some, Option.getD_some] at h
    simp only [Core.resetting, hgp, Option.any_some]
    cases hpc : gp.pc <;> rw [hpc] at h <;> try (simp [GpPc.phase] at h; done)
    case storeLeave => rfl
    case dropFlag w _ d | dropInfo w _ d =>
      cases d with
      | abandoned => simp [GpPc.phase] at h
      | again | passed => rcases hw h with rfl | rfl <;> rfl
    all_goals rcases hw h with rfl | rfl <;> rfl

theorem view_bounded
    (h : (idealMachine cfg).Reach (fun x a => TokioOrder x.1 a ∧ AbandonSafe x.1 a) x) (t : Tid) :
    (view x.1 x.2 t).Bounded := by
  refine view_induct h (fun _ _ ha => ha.1) (fun x a t ha hb hphase st hst => ?_) (fun e he => ?_)
    (fun v v' hv hs => hv.step hs) t
  · exact ha.2 hb (resetting_of_phase hphase) t _ (stamps_subset_held st hst)
  · have hpos : 0 < e := Nat.lt_of_lt_of_le (by decide) he.min_le
    exact ⟨hpos, nofun, nofun, nofun, by rintro (⟨ha, -⟩ | ha) <;> (cases ha), nofun⟩

/-- As long as resets are abandoned only when that is safe, an abandoned grace
period leaves nothing behind that a later one could take for its own: with no
grace period running no thread is ahead of the epoch id, and the test of an
increment fails on everything that was loaded before it. -/
theorem abandon_leaves_bounded
    (h : (idealMachine cfg).Reach (fun x a => TokioOrder x.1 a ∧ AbandonSafe x.1 a) x) :
    (x.1.gp = none → ∀ i e, ThreadState.decode (x.1.slots i) = some ⟨e, true⟩ →
      e ≤ x.1.curEpochId) ∧
    (∀ gp ∈ x.1.gp, ∀ n sub self len k, gp.pc = .scan (.next n) sub self len k →
      ∀ t i e, (x.1.threads t).slot = some i → ThreadState.decode (x.1.slots i) = some ⟨e, true⟩ →
        x.2.seen t < x.2.epoch → (Wait.next n).predicate e = false) := by
  have hinv : x.1.Inv cfg := Core.inv_inductive.reach (h.of_track fun _ _ ha => ha.1)
  refine ⟨?_, ?_⟩
  · intro hgp i e hd
    obtain ⟨t, ht⟩ := hinv.exists_owner hd
    by_cases hne : e = 0
    · exact hne ▸ Nat.zero_le _
    · have hphase : (view x.1 x.2 t).phase = .quiet := by simp [view, hgp]
      exact (view_bounded h t).bounded (by simp [hphase]) (by simp [hphase]) _
        (Thread.published_mem ht hd hne)
  · intro gp hgp n sub self len k hpc t i e ht hd hlt
    have hn : (Wait.next n).epochId = x.1.curEpochId :=
      (GpPc.epochOk_of_wait (by rw [hpc]; rfl)).mp (hinv.gp gp hgp).epoch
    have hpos := hinv.epoch.min_le
    have hphase : (view x.1 x.2 t).phase = .advanced := by
      have hgp : x.1.gp = some gp := hgp
      simp [view, hgp, hpc, GpPc.phase, Wait.phase]
    have hlt : e < (Wait.next n).epochId := by
      rw [hn]
      by_cases hne : e = 0
      · exact hne ▸ Nat.lt_of_lt_of_le (by decide) hpos
      · exact (view_bounded h t).stale hphase _ (Thread.published_mem ht hd hne) hlt
    simpa [Wait.predicate, Wait.epochId] using hlt

/-- A grace period on thread 0 that makes `n` accesses, is suspended because of
thread 1 or of thread 0 itself, and is then dropped. -/
def Act.abandonedGp (n : Nat) : List Act :=
  Act.firstPoll 0 ++ Act.firstPoll 1 ++ .begin 0 0 :: List.replicate n .gp ++
    .abandon :: List.replicate 3 .gp

/-- Two threads away from a reset: the increment is abandoned, and the epoch id
is ahead of both. -/
theorem abandon_leaves_bounded_at_increment :
    ∃ x : Core × Ideal, x.1.curEpochId = 6 ∧
      ThreadState.decode (x.1.slots 1) = some ⟨4, true⟩ ∧ 4 ≤ x.1.curEpochId := by
  have hinit : (idealMachine Config.testMode).init (Core.initial 4, Ideal.start) :=
    ⟨⟨by decide, by decide, rfl⟩, rfl⟩
  obtain ⟨x, hx, hp⟩ := Lib.Machine.exists_of_runIf
    (fun x a => TokioOrder x.1 a ∧ (x.1.aborts a = true → x.1.resetting = false))
    (Act.abandonedGp 10) (fun x => x.1.gp.isNone &&
      ThreadState.decode (x.1.slots 1) == some ⟨4, true⟩ && x.1.curEpochId == 6) hinit (by decide)
  simp only [Bool.and_eq_true, beq_iff_eq, Option.isNone_iff_eq_none] at hp
  obtain ⟨⟨hgp, hd⟩, hcur⟩ := hp
  have hx : (idealMachine Config.testMode).Reach (fun x a => TokioOrder x.1 a ∧ AbandonSafe x.1 a) x :=
    hx.mono fun _ _ _ ha => ⟨ha.1, fun hb hr => by rw [ha.2 hb] at hr; cases hr⟩
  exact ⟨x, hcur, hd, (abandon_leaves_bounded hx).1 hgp 1 4 hd⟩

/-- In a reset it is not so: thread 1 is left with the maximal epoch id while
the epoch id is the minimal one, and no grace period is running. -/
theorem abandoned_reset_leaves_stale :
    ¬ ∀ s : Core, (machine Config.testMode).Reach TokioOrder s → s.gp = none →
      ∀ i e, ThreadState.decode (s.slots i) = some ⟨e, true⟩ → e ≤ s.curEpochId := by
  intro h
  have hinit : (machine Config.testMode).init (Core.initial Config.testMode.epochIdMax) :=
    ⟨by decide, by decide, rfl⟩
  obtain ⟨s, hs, hp⟩ := Lib.Machine.exists_of_runIf TokioOrder (Act.abandonedGp 11)
    (fun s => s.gp.isNone && ThreadState.decode (s.slots 1) == some ⟨254, true⟩ &&
      s.curEpochId == 2) hinit (by decide)
  simp only [Bool.and_eq_true, beq_iff_eq, Option.isNone_iff_eq_none] at hp
  obtain ⟨⟨hgp, hd⟩, hcur⟩ := hp
  have := h s hs hgp 1 254 hd
  omega

end TokioRcu
