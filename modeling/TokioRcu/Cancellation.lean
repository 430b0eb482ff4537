import TokioRcu.Abandon
import TokioRcu.Program

/-!
# Safety when futures are dropped

A call of `synchronize_rcu` may be dropped at any of its await points, and it
panics when it is polled on a thread without a storage slot. Outside of a reset
of the epoch id that harms nobody: an abandoned increment leaves threads behind
on smaller epoch ids, and the waits that follow tell these from their own.

A reset tells them apart as well, all but one: the epoch id that it ends on. A
thread can still be on that one only if it has been in the same poll while all
the epoch ids were used up by grace periods that were abandoned. `Careful` says
that no reset is abandoned and that none begins with such a thread around.
-/

namespace TokioRcu

-- ---------------------------------------------------------------------------
-- One thread
-- ---------------------------------------------------------------------------

/-- The epoch ids between two resets. -/
def Phase.CurAbove (cur : Stamp) : Phase → Prop
  | .reset => cur.val = epochIdMin
  | .left => cur.val = epochIdMin + 2
  | .quiet | .advanced | .done => epochIdMin + 2 ≤ cur.val

/-- The epoch ids that a thread may still hold: the current one, or any older
one that the running wait tells from it. -/
def Phase.Recalls (cur : Stamp) (ph : Phase) (st : Stamp) : Prop :=
  st = cur ∨ st.age < cur.age ∧ match ph with
    | .quiet | .advanced | .done => epochIdMin + 2 ≤ st.val ∧ st.val < cur.val
    | .reset => epochIdMin + 2 < st.val
    | .left => st.val = epochIdMin ∨ epochIdMin + 2 < st.val

structure View.Guarded (v : View) : Prop where
  cur : v.phase.CurAbove v.cur
  recalls : ∀ st ∈ v.reader.stamps, v.phase.Recalls v.cur st
  order : ∀ seen next, v.reader = .quiescing seen next → seen.age ≤ next.age
  checked : v.phase = .advanced ∨ v.phase = .left → v.checked → ∀ st ∈ v.reader.stamps, st = v.cur
  held : v.held → (∃ seen, v.reader = .online seen) ∧
    (v.phase = .quiet ∨ v.phase ≠ .done ∧ ∀ st ∈ v.reader.stamps, st.age < v.cur.age)

theorem Phase.CurAbove.pos {ph : Phase} (h : ph.CurAbove cur) : 0 < cur.val := by
  cases ph <;> simp only [CurAbove, epochIdMin] at h <;> omega

theorem Phase.Recalls.age_le {ph : Phase} (h : ph.Recalls cur st) : st.age ≤ cur.age := by
  rcases h with rfl | ⟨h, -⟩
  · exact Nat.le_refl _
  · exact Nat.le_of_lt h

theorem Phase.Recalls.eq_of_age {ph : Phase} (h : ph.Recalls cur st) (ha : cur.age ≤ st.age) :
    st = cur :=
  h.resolve_right fun hlt => Nat.not_lt_of_le ha hlt.1

/-- The wait for everybody accepts the current epoch id only. -/
theorem Phase.Recalls.eq_of_accepts {ph : Phase} (h : ph.Recalls cur st) (hcur : ph.CurAbove cur)
    (hq : ph = .advanced ∨ ph = .left) (ha : ph.Accepts cur st.val) : st = cur := by
  refine h.resolve_right ?_
  rintro ⟨-, hold⟩
  rcases hq with rfl | rfl
  · exact Nat.not_le_of_lt hold.2 ha
  · simp only [Accepts, CurAbove, epochIdMin] at ha hcur hold
    omega

theorem View.Guarded.of_passes {v : View} (h : v.Guarded)
    (hp : v.reader.Passes v.phase v.cur) (hq : v.phase = .advanced ∨ v.phase = .left) :
    ∀ st ∈ v.reader.stamps, st = v.cur := by
  have hcur := h.cur
  have hpos := hcur.pos
  generalize hr : v.reader = r at *
  cases hp with
  | offline =>
    intro st hst
    cases hst
  | fetching _ ha => rcases hq with hq | hq <;> rw [hq] at ha <;> simp only [Phase.Accepts] at ha <;> omega
  | @online seen ha =>
    intro st hst
    obtain rfl := List.mem_singleton.mp hst
    exact (h.recalls st (hr ▸ hst)).eq_of_accepts hcur hq ha
  | @quiescing seen next ha =>
    have hseen : seen = v.cur :=
      (h.recalls seen (by rw [hr]; simp [Reader.stamps])).eq_of_accepts hcur hq ha
    have hnext : next = v.cur := by
      refine (h.recalls next (by rw [hr]; simp [Reader.stamps])).eq_of_age ?_
      rw [← hseen]
      exact h.order seen next hr
    intro st hst
    simp only [Reader.stamps, List.mem_cons, List.not_mem_nil, or_false] at hst
    rcases hst with rfl | rfl
    · exact hseen
    · exact hnext
  | skip hs => rcases hq with hq | hq <;> rw [hq] at hs <;> cases hs

/-- A grace period that waits for an increment may be abandoned. -/
def View.MayDrop (v : View) : Prop := v.phase ≠ .reset ∧ v.phase ≠ .left

theorem View.Guarded.step {v v' : View} (h : v.Guarded) (hs : v.Step cfg View.MayDrop v')
    (honline : v'.held → ∃ seen, v'.reader = .online seen)
    (hreset : v.phase = .quiet → v'.phase = .reset →
      ∀ st ∈ v.reader.stamps, st.val ≠ epochIdMin + 2) : v'.Guarded := by
  cases hs with
  | @move r c k hr hc hv hk =>
    refine ⟨h.cur, fun st hst => ?_, hr.order h.order fun st hst => (h.recalls st hst).age_le, ?_,
      fun hk' => absurd hk' hk⟩
    · rcases hr.stamps st hst with hst | rfl
      · exact h.recalls st hst
      · exact .inl rfl
    · intro hq hc' st hst
      rcases hc hc' with hc' | rfl
      · exact (hr.stamps st hst).elim (h.checked hq hc' st) id
      · cases hst
  | look hc hk =>
    refine ⟨h.cur, h.recalls, h.order, fun hq hc' => ?_, fun hk' => h.held (hk hk')⟩
    rcases hc hc' with hc' | hp
    · exact h.checked hq hc'
    · exact h.of_passes hp hq
  | begin hq hk =>
    refine ⟨h.cur, h.recalls, h.order, fun hq' => ?_, fun hk' => ⟨honline hk', .inl hq⟩⟩
    rw [hq] at hq'
    rcases hq' with hq' | hq' <;> cases hq'
  | advance hq he hne hc hk =>
    have hcur := h.cur
    have hrecalls := h.recalls
    rw [hq] at hcur hrecalls
    have hcur : epochIdMin + 2 ≤ v.cur.val := hcur
    have hle (st) (hst : st ∈ v.reader.stamps) : st.age < v.cur.age + 1 :=
      Nat.lt_succ_of_le (hrecalls st hst).age_le
    refine ⟨Nat.le_add_right_of_le hcur, fun st hst => .inr ⟨hle st hst, ?_⟩, h.order,
      fun _ hc' => absurd hc' hc, fun hk' => ⟨honline hk', .inr ⟨by rintro ⟨⟩, hle⟩⟩⟩
    rcases hrecalls st hst with rfl | ⟨-, hmin, hlt⟩
    · exact ⟨hcur, Nat.lt_add_of_pos_right (by decide)⟩
    · exact ⟨hmin, Nat.lt_add_right 2 hlt⟩
  | reset hq hmax hc hk =>
    have hne := hreset hq rfl
    have hcur := h.cur
    have hrecalls := h.recalls
    rw [hq] at hcur hrecalls
    have hcur : epochIdMin + 2 ≤ v.cur.val := hcur
    have hle (st) (hst : st ∈ v.reader.stamps) : st.age < v.cur.age + 1 :=
      Nat.lt_succ_of_le (hrecalls st hst).age_le
    refine ⟨rfl, fun st hst => .inr ⟨hle st hst, ?_⟩, h.order, fun _ hc' => absurd hc' hc,
      fun hk' => ⟨honline hk', .inr ⟨by rintro ⟨⟩, hle⟩⟩⟩
    refine Nat.lt_of_le_of_ne ?_ (hne st hst).symm
    rcases hrecalls st hst with rfl | ⟨-, hmin, -⟩
    · exact hcur
    · exact hmin
  | leave hq hchecked hc hk =>
    have hcur := h.cur
    have hrecalls := h.recalls
    rw [hq] at hcur hrecalls
    have hle (st) (hst : st ∈ v.reader.stamps) : st.age < v.cur.age + 1 :=
      Nat.lt_succ_of_le (hrecalls st hst).age_le
    refine ⟨rfl, fun st hst => .inr ⟨hle st hst, ?_⟩, h.order, fun _ hc' => absurd hc' hc,
      fun hk' => ⟨honline hk', .inr ⟨by rintro ⟨⟩, hle⟩⟩⟩
    rcases hrecalls st hst with rfl | ⟨-, hlt⟩
    · exact .inl hcur
    · exact .inr hlt
  | finish hq hchecked hk =>
    have heq := h.checked hq hchecked
    have hcur : epochIdMin + 2 ≤ v.cur.val := by
      have hcur := h.cur
      rcases hq with hq | hq <;> rw [hq] at hcur
      · exact hcur
      · exact Nat.le_of_eq hcur.symm
    refine ⟨hcur, fun st hst => .inl (heq st hst), h.order, by rintro (ha | ha) <;> (cases ha), ?_⟩
    intro hk'
    -- a thread that is held holds an older epoch id
    obtain ⟨⟨seen, hr⟩, hlt⟩ := h.held (hk hk')
    have hlt := (hlt.resolve_left (by rcases hq with hq | hq <;> simp [hq])).2
    have hmem : seen ∈ v.reader.stamps := by
      rw [hr]
      exact List.mem_singleton_self seen
    have hlt := hlt seen hmem
    rw [heq seen hmem] at hlt
    exact absurd hlt (Nat.lt_irrefl _)
  | forget hq hk =>
    have hcur := h.cur
    have hrecalls := h.recalls
    rw [hq] at hcur hrecalls
    exact ⟨hcur, hrecalls, h.order, by rintro (ha | ha) <;> (cases ha), fun hk' => absurd hk' hk⟩
  | abandon ha =>
    have hcur : epochIdMin + 2 ≤ v.cur.val ∧ ∀ st ∈ v.reader.stamps, Phase.quiet.Recalls v.cur st := by
      have hcur := h.cur
      have hrecalls := h.recalls
      cases hph : v.phase with
      | reset => exact absurd hph ha.1
      | left => exact absurd hph ha.2
      | quiet | advanced | done =>
        rw [hph] at hcur hrecalls
        exact ⟨hcur, hrecalls⟩
    exact ⟨hcur.1, hcur.2, h.order, by rintro (ha | ha) <;> (cases ha),
      fun hk' => ⟨honline hk', .inl rfl⟩⟩

-- ---------------------------------------------------------------------------
-- The threads and the performer
-- ---------------------------------------------------------------------------

/-- The step stores the minimal epoch id. -/
def Core.beginsReset (s : Core) : Act → Bool
  | .gp => s.gp.any fun gp => gp.pc == .storeReset
  | _ => false

/-- Runs in tokio's order in which no reset is abandoned, and none begins while
a thread is on the epoch id that it ends on. -/
structure Careful (s : Core) (a : Act) : Prop where
  order : TokioOrder s a
  abandon : s.aborts a = true → s.resetting = false
  reset : s.beginsReset a = true → ∀ t, epochIdMin + 2 ∉ s.heldEpochIds t

variable {cfg : Config} {s s' : Core} {x : Core × Ideal} {g : Ideal} {t : Tid} {a : Act}

theorem beginsReset_of_phase (h : s.Inv cfg) (hs : s.step cfg a = some s')
    (hq : (view s g t).phase = .quiet) {g' : Ideal} (hr : (view s' g' t).phase = .reset) :
    s.beginsReset a = true := by
  obtain ⟨s₁, rfl, hm⟩ := Core.step_move hs
  have hr : (view s₁ g' t).phase = .reset := hr
  have stay (hplace : s₁.gp.map Gp.place = s.gp.map Gp.place) : s.beginsReset a = true := by
    rw [phase_congr (g := g) hplace, hq] at hr
    cases hr
  cases hm with
  | @call _ k => cases k <;> exact stay rfl
  | hook _ hm => exact stay (hm.frame h).place
  | openSection | closeSection | other => exact stay rfl
  | begin => cases hr
  | poll _ hg hpc =>
    have hph : (view s g t).phase = .reset := by
      rw [← hr]
      simp [view, hg, hpc, GpPc.phase]
    rw [hq] at hph
    cases hph
  | abandon => cases hr
  | @gp gp _ hg _ hm =>
    have hph : (view s g t).phase = gp.pc.phase := by simp [view, hg]
    have hph' : (view s₁ g' t).phase = ((s₁.gp.map Gp.pc).map GpPc.phase).getD .quiet := by
      simp [view, Option.map_map, Function.comp_def]
    rw [hph] at hq
    rw [hph'] at hr
    generalize s₁.gp.map Gp.pc = pc' at *
    generalize s₁.curEpochId = cur' at *
    cases hm with
    | storeReset hpc => simp [Core.beginsReset, hg, hpc]
    | between hw hp =>
      rw [GpPc.phase_of_between hw] at hq
      simp only [Option.map_some, Option.getD_some, GpPc.phase_of_between hp, hq] at hr
      cases hr
    | dropFlag hpc hd =>
      rw [hpc] at hq
      rename_i d
      cases d with
      | again => exact absurd rfl hd
      | passed => cases hq.symm.trans hr
      | abandoned => cases hr
    | loadEpoch | loadMax | storeNext | storeLeave | panic | finish | abort | done => cases hr
    | beginScan hpc | scanPass hpc | scanFail hpc | scanEnd hpc | resetDone hpc =>
      rw [hpc] at hq
      cases hq.symm.trans hr

theorem held_online (h : s.Inv cfg) (hh : (view s g t).held) :
    ∃ seen, (view s g t).reader = .online seen := by
  obtain ⟨gp, -, o, ho, -⟩ := hh
  exact reader_of_section h ho

theorem view_guarded (h : (idealMachine cfg).Reach (fun x => Careful x.1) x) (t : Tid) :
    (view x.1 x.2 t).Guarded := by
  refine h.induct (I := fun x => (view x.1 x.2 t).Guarded) (fun x hx => ?_)
    fun x a x' hr ih ha hs => ?_
  · obtain ⟨⟨hv, hmin, hs⟩, hg⟩ := hx
    have hview : view x.1 x.2 t = ⟨.offline, ⟨x.1.curEpochId, 0⟩, .quiet, False, False⟩ := by
      rw [hs, hg]
      simp [view, Core.initial, Thread.fresh, Thread.reader, Ideal.start]
    rw [hview]
    refine ⟨?_, by rintro _ ⟨⟩, by rintro _ _ ⟨⟩, by rintro (hc | hc) <;> (cases hc), False.elim⟩
    have hle := hv.min_le
    have heven := hv.even
    simp only [Phase.CurAbove, epochIdMin] at *
    omega
  · obtain ⟨hs, hg⟩ := Lib.Machine.track_step.mp hs
    have hr' : (machine cfg).Reach TokioOrder x.1 := hr.of_track fun _ _ ha => ha.order
    have hinv : x.1.Inv cfg := Core.inv_inductive.reach hr'
    have hinv' : x'.1.Inv cfg := Core.inv_inductive.reach (.step hr' ha.order hs)
    have hab (hb : x.1.aborts a = true) : (view x.1 x.2 t).MayDrop := by
      have hno := ha.abandon hb
      refine ⟨fun hp => ?_, fun hp => ?_⟩
      · rw [resetting_of_phase (.inl hp)] at hno
        cases hno
      · rw [resetting_of_phase (.inr hp)] at hno
        cases hno
    rw [hg] at *
    refine ih.step (view_step hinv (Core.since_le hr') hab hs) (held_online hinv') ?_
    intro hq hp st hst hval
    exact ha.reset (beginsReset_of_phase hinv hs hq hp) t (hval ▸ stamps_subset_held st hst)

/-- A grace period that is done has outlived the sections it found open. -/
theorem Core.Careful.since_le_section (h : (machine cfg).Reach Careful s) {gp : Gp}
    (hgp : s.gp = some gp) (hpc : gp.pc = .finished) (t : Tid) :
    ∀ o ∈ (s.threads t).sections, gp.since ≤ o := by
  intro o ho
  obtain ⟨g, hg⟩ := h.exists_track Ideal.start Ideal.next
  have hphase : (view s g t).phase = .done := by simp [view, hgp, hpc, GpPc.phase]
  by_contra hlt
  obtain ⟨-, hq | ⟨hd, -⟩⟩ :=
    (view_guarded hg t).held ⟨gp, hgp, o, ho, Nat.lt_of_not_le hlt⟩
  · cases hphase.symm.trans hq
  · exact hd hphase

namespace Program

variable {p p' : Program} {act : ProgramAct} {c : CallId} {id n since : Nat}

/-- Calls may be dropped wherever they wait, but not in a reset of the epoch id. -/
def Careful (p : Program) : ProgramAct → Prop
  | .core a => TokioRcu.Careful p.core a
  | .sync _ => True
  | .enter _ t w => TokioOrder p.core (.begin t w)
  | .leave _ => True

theorem Careful.core_reach (h : (program cfg).Reach Careful p) :
    (machine cfg).Reach TokioRcu.Careful p.core := by
  induction h with
  | init hi => exact .init hi.core
  | step _ ho hs ih =>
    obtain ⟨a, b, hm, hcore, -⟩ := step_move hs
    refine .step ih ?_ hcore
    cases hm with
    | core => exact ho
    | sync => exact ⟨trivial, by rintro ⟨⟩, by rintro ⟨⟩⟩
    | enter => exact ⟨ho, by rintro ⟨⟩, by rintro ⟨⟩⟩
    | @finish _ _ _ _ gp _ hgp hpc | @abort _ _ _ _ gp _ hgp hpc =>
      obtain ⟨pc, runner, waker, woken, since⟩ := gp
      cases hpc
      refine ⟨trivial, fun hb => ?_, fun hb => ?_⟩
      · simp [Core.aborts, hgp] at hb
      · simp [Core.beginsReset, hgp] at hb

theorem Careful.sync_reach (h : (program cfg).Reach Careful p) :
    (syncMachine cfg).Reach (fun _ _ => True) p.sync := by
  induction h with
  | init hi => exact .init hi.sync
  | step _ _ hs ih =>
    obtain ⟨a, b, -, -, hsync⟩ := step_move hs
    exact .step ih trivial hsync

/-- What no step of either half breaks. -/
theorem Linked.clock_step (h : p.Linked) (hinv : p.core.Inv cfg) {a : Act} {b : SyncAct}
    (hcore : p.core.step cfg a = some p'.core) (hsync : p.sync.step cfg b = some p'.sync) :
    p'.core.clock = p'.sync.clock ∧ p.core.clock ≤ p'.core.clock ∧
      ∀ e ∈ p.sync.completed, ∀ t, ∀ o ∈ (p'.core.threads t).sections, e ≤ o := by
  refine ⟨?_, ?_, fun e he t o ho => ?_⟩
  · rw [Core.step_clock hinv hcore, Sync.step_clock hsync, h.clock]
  · rw [Core.step_clock hinv hcore]
    exact Nat.le_succ _
  · rcases Core.step_sections hinv hcore ho with ho | rfl
    · exact h.ended e he t o ho
    · exact h.past e he

/-- Nobody crosses the border of `synchronize_rcu_serialized`. -/
theorem Linked.stay (h : p.Linked) (hclock : p'.core.clock = p'.sync.clock)
    (hle : p.core.clock ≤ p'.core.clock)
    (hended : ∀ e ∈ p.sync.completed, ∀ t, ∀ o ∈ (p'.core.threads t).sections, e ≤ o)
    (hgp : p'.core.gp.map Gp.since = p.core.gp.map Gp.since)
    (hcompleted : p'.sync.completed = p.sync.completed)
    (hcalls : ∀ d, (p'.sync.calls d).pc.since = (p.sync.calls d).pc.since) : p'.Linked := by
  refine ⟨hclock, fun d e hd => ?_, fun hne => ?_, fun e he => ?_, fun e he => ?_⟩
  · rw [hgp]
    exact h.since d e (hcalls d ▸ hd)
  · obtain ⟨d, hd⟩ := h.performer fun hnone => by
      rw [hnone, Option.map_none, Option.map_eq_none_iff] at hgp
      exact hne hgp
    exact ⟨d, by rwa [hcalls d]⟩
  · exact Nat.le_trans (h.past e (hcompleted ▸ he)) hle
  · exact hended e (hcompleted ▸ he)

/-- The performer comes back. What was completed before, and what is completed
now, is older than every section. -/
theorem Linked.leave (h : p.Linked) (hsinv : p.sync.Inv cfg)
    (hpc : (p.sync.calls c).pc = .serialized id n since) (hclock : p'.core.clock = p'.sync.clock)
    (hle : p.core.clock ≤ p'.core.clock)
    (hended : ∀ e ∈ p.sync.completed, ∀ t, ∀ o ∈ (p'.core.threads t).sections, e ≤ o)
    {x : Call} (hx : x.pc.since = none) (hcalls : p'.sync.calls = Function.update p.sync.calls c x)
    (hgp : p'.core.gp = none)
    (hcompleted : ∀ e ∈ p'.sync.completed, e ∈ p.sync.completed ∨
      e ≤ p.core.clock ∧ ∀ t, ∀ o ∈ (p'.core.threads t).sections, e ≤ o) : p'.Linked := by
  refine ⟨hclock, fun d e hd => ?_, fun hne => absurd hgp hne, fun e he => ?_, fun e he => ?_⟩
  · rw [hcalls] at hd
    exact absurd hd (left hsinv hpc hx d e)
  · rcases hcompleted e he with he | ⟨he, -⟩
    · exact Nat.le_trans (h.past e he) hle
    · exact Nat.le_trans he hle
  · rcases hcompleted e he with he | ⟨-, he⟩
    · exact hended e he
    · exact he

theorem Linked.enter (h : p.Linked) {t : Tid} {w : Waker}
    (hpc : (p.sync.calls c).pc = .enter id n)
    (hcore : p.core.step cfg (.begin t w) = some p'.core)
    (hsync : p.sync.step cfg (.call c) = some p'.sync) (hclock : p'.core.clock = p'.sync.clock)
    (hle : p.core.clock ≤ p'.core.clock)
    (hended : ∀ e ∈ p.sync.completed, ∀ t, ∀ o ∈ (p'.core.threads t).sections, e ≤ o) :
    p'.Linked := by
  obtain ⟨s₁, hcore', hm⟩ := Core.step_move hcore
  obtain ⟨hnone, hgp⟩ : p.core.gp = none ∧ p'.core.gp.map Gp.since = some p.core.clock := by
    rw [hcore']
    cases hm with
    | begin _ hg => exact ⟨hg, rfl⟩
  have hsync' : (p.sync.goto c (.serialized id n p.sync.clock)).tick = p'.sync := by
    simpa [Sync.step, Sync.act, Sync.callStep, hpc] using hsync
  have hcalls : p'.sync.calls = Function.update p.sync.calls c
      { p.sync.calls c with pc := .serialized id n p.sync.clock } := by
    rw [← hsync']
    rfl
  have hcompleted : p'.sync.completed = p.sync.completed := by
    rw [← hsync']
    rfl
  refine ⟨hclock, fun d e hd => ?_, fun _ => ⟨c, ?_⟩, fun e he => ?_, fun e he => ?_⟩
  · rw [hcalls] at hd
    by_cases hdc : d = c
    · rw [hdc, Function.update_self] at hd
      rw [hgp, h.clock]
      exact hd
    · rw [Function.update_of_ne hdc] at hd
      have hsince := h.since d e hd
      rw [hnone] at hsince
      cases hsince
  · rw [hcalls, Function.update_self]
    intro e
    cases e
  · exact Nat.le_trans (h.past e (hcompleted ▸ he)) hle
  · exact hended e (hcompleted ▸ he)

theorem Careful.linked (h : (program cfg).Reach Careful p) : p.Linked := by
  refine h.induct (I := Linked) (fun p hp => ?_) fun p act p' hr ih _ hs => ?_
  · have hcore := hp.core.eq
    refine ⟨?_, fun c e hc => ?_, fun hne => absurd ?_ hne, fun e he => ?_, fun e he => ?_⟩
    · rw [hcore, hp.sync]
      rfl
    · rw [hp.sync] at hc
      cases hc
    · rw [hcore]
      rfl
    · rw [hp.sync] at he
      cases he
    · rw [hp.sync] at he
      cases he
  · obtain ⟨a, b, hm, hcore, hsync⟩ := step_move hs
    have hcr := core_reach hr
    have horder := hcr.mono fun _ _ _ ha => ha.order
    have hinv : p.core.Inv cfg := Core.inv_inductive.reach horder
    have hsinv : p.sync.Inv cfg := Sync.inv_inductive.reach (sync_reach hr)
    obtain ⟨hclock, hle, hended⟩ := ih.clock_step hinv hcore hsync
    cases hm with
    | core a hc =>
      obtain ⟨hcompleted, hcalls⟩ := Sync.step_local hsync rfl
      exact ih.stay hclock hle hended (Core.step_since hinv hcore hc) hcompleted hcalls
    | sync b hc =>
      obtain ⟨hcompleted, hcalls⟩ := Sync.step_local hsync hc
      exact ih.stay hclock hle hended (Core.step_since hinv hcore rfl) hcompleted hcalls
    | enter hpc => exact ih.enter hpc hcore hsync hclock hle hended
    | @finish c id n since gp hpc hgp hf =>
      have hsync' : ({ p.sync with completed := since :: p.sync.completed }.goto c
          (.publish id n)).tick = p'.sync := by
        simpa [Sync.step, Sync.act, Sync.callStep, hpc] using hsync
      have hcore' : { p.core with gp := none }.tick = p'.core := by
        simpa [Core.step, Core.act, hgp, Core.gpStep, hf] using hcore
      have hsince : gp.since = since := by
        have hsince := ih.since c since (by rw [hpc]; rfl)
        rw [hgp] at hsince
        exact Option.some.inj hsince
      refine ih.leave hsinv hpc hclock hle hended (x := { p.sync.calls c with pc := .publish id n })
        rfl (by rw [← hsync']; rfl) (by rw [← hcore']; rfl) fun e he => ?_
      rw [← hsync'] at he
      rcases List.mem_cons.mp he with rfl | he
      · refine .inr ⟨hsince ▸ Core.since_le horder gp hgp, fun t o ho => ?_⟩
        rw [← hcore'] at ho
        exact hsince ▸ Core.Careful.since_le_section hcr hgp hf t o ho
      · exact .inl he
    | @abort c id n since gp hpc hgp hf =>
      have hsync' : (p.sync.goto c (.unlockMutex .dropped)).tick = p'.sync := by
        simpa [Sync.step, Sync.act, Sync.dropStep, hpc] using hsync
      have hcore' : { p.core with gp := none }.tick = p'.core := by
        simpa [Core.step, Core.act, hgp, Core.gpStep, hf] using hcore
      refine ih.leave hsinv hpc hclock hle hended
        (x := { p.sync.calls c with pc := .unlockMutex .dropped }) rfl (by rw [← hsync']; rfl)
        (by rw [← hcore']; rfl) fun e he => .inl ?_
      rw [← hsync'] at he
      exact he

theorem Careful.polledAt_lt (h : (program cfg).Reach Careful p)
    (hc : (p.sync.calls c).pc = .ended .ready) {t : Tid} {o : Nat}
    (ho : o ∈ (p.core.threads t).sections) : (p.sync.calls c).polledAt < o := by
  have hinv : p.sync.Inv cfg := Sync.inv_inductive.reach (sync_reach h)
  obtain ⟨⟨e, he, hlt⟩, hpolled⟩ := (hinv.call c).returns (by rw [hc]; rfl)
  calc (p.sync.calls c).polledAt
      < (p.sync.calls c).countedAt := hpolled
    _ < e := hlt
    _ ≤ o := (linked h).ended e he t o ho

/-- A section was opened in the past. -/
theorem Careful.section_past (h : (program cfg).Reach Careful p) :
    ∀ t, ∀ o ∈ (p.core.threads t).sections, o < p.sync.clock := by
  have hcore : (machine cfg).Reach TokioOrder p.core := (core_reach h).mono fun _ _ _ ha => ha.order
  rw [← (linked h).clock]
  refine hcore.induct (I := fun s => ∀ t, ∀ o ∈ (s.threads t).sections, o < s.clock)
    (fun s hs => ?_) fun s a s' hr ih _ hs t o ho => ?_
  · rw [hs.eq]
    intro t o ho
    cases ho
  · have hinv : s.Inv cfg := Core.inv_inductive.reach hr
    rw [Core.step_clock hinv hs]
    rcases Core.step_sections hinv hs ho with ho | rfl
    · exact Nat.lt_succ_of_lt (ih t o ho)
    · exact Nat.lt_succ_self _

/-- A call that returns has outlived the sections that were open when it was
first polled, whichever calls are dropped around it. -/
theorem returns_despite_drops (h : (program cfg).Reach Careful p) :
    (∀ c, (p.sync.calls c).pc = .ended .ready →
      ∀ t, ∀ o ∈ (p.core.threads t).sections, (p.sync.calls c).polledAt < o) ∧
    ∀ gp ∈ p.core.gp, gp.pc = .finished →
      ∀ t, ∀ o ∈ (p.core.threads t).sections, gp.since ≤ o :=
  ⟨fun _ hc _ _ ho => Careful.polledAt_lt h hc ho,
    fun _ hgp hpc t => Core.Careful.since_le_section (Careful.core_reach h) hgp hpc t⟩

/-- Everything but a reset of the epoch id. -/
def withoutReset (p : Program) : ProgramAct → Bool
  | .core a => decide (TokioOrder p.core a) && !(p.core.aborts a && p.core.resetting) &&
      !p.core.beginsReset a
  | .enter _ t w => decide (TokioOrder p.core (.begin t w))
  | .sync _ | .leave _ => true

theorem Careful.of_withoutReset (h : p.withoutReset act = true) : p.Careful act := by
  cases act with
  | core a =>
    simp only [withoutReset, Bool.and_eq_true, decide_eq_true_eq, Bool.not_eq_true',
      Bool.and_eq_false_iff] at h
    obtain ⟨⟨horder, hab⟩, hreset⟩ := h
    refine ⟨horder, fun hb => ?_, fun hb => ?_⟩
    · exact hab.resolve_left fun hno => by rw [hb] at hno; cases hno
    · rw [hreset] at hb
      cases hb
  | enter c t w =>
    have horder : TokioOrder p.core (.begin t w) := of_decide_eq_true h
    exact horder
  | sync | leave => exact trivial

/-- Call 0 on thread 1 is dropped because thread 0 is in a read section. Call 1
returns while thread 0 is in its next one. -/
theorem returns_despite_drops_after_one :
    ∃ p : Program, (p.sync.calls 0).pc = .ended .dropped ∧ (p.sync.calls 1).pc = .ended .ready ∧
      ∃ o ∈ (p.core.threads 0).sections, (p.sync.calls 1).polledAt < o := by
  let core (acts : List Act) := acts.map ProgramAct.core
  let afterPoll (t : Tid) (n : Nat) : List ProgramAct :=
    core (.call t .afterPoll :: List.replicate n (.hook t) ++ [.call t .beforePoll])
  have hinit : (program Config.testMode).init ⟨.initial 4, .initial⟩ :=
    ⟨⟨by decide, by decide, rfl⟩, rfl⟩
  obtain ⟨p, hr, hp⟩ := Lib.Machine.exists_of_runIf (fun p act => p.withoutReset act = true)
    (core (Act.firstPoll 0 ++ .openSection 0 :: Act.firstPoll 1) ++
      List.replicate 7 (.sync (.call 0)) ++ .enter 0 1 0 ::
      core (List.replicate 10 .gp ++ [.abandon, .gp, .gp]) ++
      .leave 0 :: List.replicate 2 (.sync (.call 0)) ++
      List.replicate 7 (.sync (.call 1)) ++ .enter 1 1 0 :: core [.gp, .gp, .closeSection 0] ++
      afterPoll 0 5 ++ core (.openSection 0 :: List.replicate 9 .gp) ++ afterPoll 1 9 ++
      core (.poll 1 0 :: List.replicate 12 .gp) ++ .leave 1 :: List.replicate 3 (.sync (.call 1)))
    (fun p => (p.sync.calls 0).pc == .ended .dropped && (p.sync.calls 1).pc == .ended .ready &&
      !(p.core.threads 0).sections.isEmpty) hinit (by decide)
  simp only [Bool.and_eq_true, beq_iff_eq, Bool.not_eq_true', List.isEmpty_eq_false_iff_exists_mem] at hp
  obtain ⟨⟨hdropped, hready⟩, o, ho⟩ := hp
  have hr := hr.mono fun _ _ _ ha => Careful.of_withoutReset ha
  exact ⟨p, hdropped, hready, o, ho, (returns_despite_drops hr).1 1 hready 0 o ho⟩

end Program
end TokioRcu
