import TokioRcu.Views

/-!
# Every step is a step of every thread's view

The simulation of `View.Step` by the machine: the hooks, the scan, and the
performer's other accesses, one lemma for each.
-/

namespace TokioRcu

section
variable {cfg : Config} {s s' : Core} {t : Tid}

theorem Core.HookMove.reader (h : s.Inv cfg) (hm : Core.HookMove s t s')
    (g : Ideal) : Reader.Step ⟨s.curEpochId, g.epoch⟩
      ((s.threads t).reader s.slots (g.seen t) (g.loaded t))
      ((s'.threads t).reader s'.slots ((g.next s (.hook t)).seen t)
        ((g.next s (.hook t)).loaded t)) := by
  have hok := h.thread t
  -- the program counter moves and nothing is loaded or stored
  have stay {pc} (hl : pc.loaded = (s.threads t).pc.loaded) :
      ((s.goto t pc).threads t).reader (s.goto t pc).slots (g.seen t) (g.loaded t) =
        (s.threads t).reader s.slots (g.seen t) (g.loaded t) :=
    Thread.reader_congr (by simp) (by rw [Core.goto_pc, hl]) fun _ _ => rfl
  have holds := hok.holds
  cases hm with
  | @dealloc i hpc hi =>
    rw [hpc] at holds
    obtain ⟨j, e, hj, he, hv⟩ := holds .online fun _ h => h
    rw [Thread.reader_online hj he hv (by rw [hpc]; rfl),
      Thread.reader_none (by simp [Core.deallocSlot])]
    exact .leave
  | @clearBusy i hpc hi =>
    rw [hpc] at holds
    obtain ⟨j, e, hj, he, hv⟩ := holds .online fun _ h => h
    cases hi.symm.trans hj
    have hv' : (s.storeState i (TokioRcu.clearBusy (s.slots i))).slots i = e := by
      rw [Core.storeState_self, hv, clearBusy_busyAt he.even]
    rw [Thread.reader_online hj he hv (by rw [hpc]; rfl),
      Core.goto_slots, Thread.reader_offline (i := i) (by simpa using hi) he hv']
    exact .leave
  | @markBusy i hpc hi =>
    rw [hpc] at holds
    obtain ⟨j, e, hj, he, hv⟩ := holds .offline fun _ h => h
    rw [Thread.reader_offline hj he hv,
      Thread.reader_joining (i := i) (by simpa using hi) (by simp) (by rw [Core.goto_pc]; rfl)]
    exact .join
  | alloc hpc =>
    rw [hpc] at holds
    rw [Thread.reader_none (holds .absent fun _ h => h)]
    obtain ⟨i, hth, hslots, -⟩ := Core.allocSlot_cases s t busyFetching (.entryFence .beforePoll)
    rw [Thread.reader_joining (i := i) (by rw [hth, Function.update_self])
      (by rw [hslots, Function.update_self]) (by rw [hth, Function.update_self]; rfl)]
    exact .join
  | @entryFence w hpc =>
    have hg : g.next s (.hook t) = g := by simp [Ideal.next, hpc]
    rw [hg, stay (by rw [hpc]; rfl)]
    exact .stay
  | seeEpoch hpc =>
    rw [hpc] at holds
    obtain ⟨i, hi, hv⟩ := holds .fetching fun _ h => h
    have hg : (g.next s (.hook t)).loaded t = g.epoch := by simp [Ideal.next, hpc]
    rw [hg, Thread.reader_joining hi hv (by rw [hpc]; rfl),
      Core.goto_slots, Thread.reader_joined (i := i) (e := s.curEpochId) (by simpa using hi) hv (by rw [Core.goto_pc]; rfl)]
    exact .fetch
  | @publish w e i hpc hi =>
    rw [hpc] at holds
    obtain ⟨j, hj, hv⟩ := holds .fetching fun _ h => h
    have he : cfg.ValidEpochId e := hok.loaded e (by rw [hpc]; rfl)
    have hg : (g.next s (.hook t)).seen t = g.loaded t := by simp [Ideal.next, hpc]
    rw [hg, Thread.reader_joined (e := e) hj hv (by rw [hpc]; rfl),
      Thread.reader_online (i := i) (by simpa using hi) he (by simp) (by rw [Core.goto_pc]; rfl)]
    exact .publish
  | @seeNewEpoch i hpc hi =>
    rw [hpc] at holds
    obtain ⟨j, e, hj, he, hv⟩ := holds .online fun _ h => h
    have hg : (g.next s (.hook t)).loaded t = g.epoch ∧ (g.next s (.hook t)).seen t = g.seen t := by
      simp [Ideal.next, hpc]
    rw [hg.1, hg.2, Thread.reader_online hj he hv (by rw [hpc]; rfl),
      Core.goto_slots, Thread.reader_quiescing (i := j) (n := s.curEpochId) (by simpa using hj) he hv
        (by rw [Core.goto_pc]; rfl)]
    exact .sample
  | @loadPrev e i hpc hi =>
    have hg : g.next s (.hook t) = g := by simp [Ideal.next, hpc]
    rw [hg, stay (by rw [hpc]; rfl)]
    exact .stay
  | @storeSeen e prev i pc hpc hi hto =>
    rw [hpc] at holds
    obtain ⟨j, seen, hj, hseen, hv⟩ := holds .online fun _ h => h
    have he : cfg.ValidEpochId e := hok.loaded e (by rw [hpc]; rfl)
    have hg : (g.next s (.hook t)).seen t = g.loaded t := by simp [Ideal.next, hpc]
    have hl : pc.loaded = none := by
      rw [hto]
      split
      · split <;> rfl
      · rfl
    rw [hg, Thread.reader_quiescing (n := e) hj hseen hv (by rw [hpc]; rfl),
      Thread.reader_online (i := i) (by simpa using hi) he (by simp) (by simpa using hl)]
    exact .settle
  | panic hn hslot =>
    rw [Thread.reader_none hslot, Thread.reader_none (by simpa using hslot)]
    exact .stay
  | @notify k pc _ hn hto hf =>
    have hg : g.next s (.hook t) = g := by
      cases hpc : (s.threads t).pc <;> simp [hpc, Pc.notifying] at hn <;> simp [Ideal.next, hpc]
    have hl : pc.loaded = none := hto.elim (fun h => h ▸ k.ret_loaded) Pc.loaded_of_notifying
    have hr : (s'.threads t).reader s'.slots (g.seen t) (g.loaded t) =
        (s.threads t).reader s.slots (g.seen t) (g.loaded t) := by
      rw [hf.threads, hf.slots]
      exact stay (by rw [hl, Pc.loaded_of_notifying hn])
    rw [hg, hr]
    exact .stay
end

section
variable {cfg : Config} {s s' : Core} {g g' : Ideal} {t : Tid} {mayAbandon : View → Prop}

theorem exists_gp_congr (hplace : s'.gp.map Gp.place = s.gp.map Gp.place)
    {p : GpPc → Nat → Prop} :
    (∃ gp ∈ s'.gp, p gp.pc gp.since) ↔ ∃ gp ∈ s.gp, p gp.pc gp.since := by
  have half {x y : Option Gp} (hxy : x.map Gp.place = y.map Gp.place) :
      (∃ gp ∈ x, p gp.pc gp.since) → ∃ gp ∈ y, p gp.pc gp.since := by
    rintro ⟨gp, hgp, hp⟩
    obtain ⟨gp', hgp', he⟩ : ∃ gp', y = some gp' ∧ gp'.place = gp.place :=
      Option.map_eq_some_iff.mp (by rw [← hxy, hgp]; rfl)
    simp only [Gp.place, Prod.mk.injEq] at he
    exact ⟨gp', hgp', by rw [he.1, he.2.2]; exact hp⟩
  exact ⟨half hplace, half hplace.symm⟩

theorem phase_congr (hplace : s'.gp.map Gp.place = s.gp.map Gp.place) :
    (view s' g' t).phase = (view s g t).phase := by
  have (x : Option Gp) : (x.map fun gp => gp.pc.phase) = (x.map Gp.place).map fun p => p.1.phase := by
    rw [Option.map_map]
    rfl
  simp only [view, this, hplace]

/-- A step in which thread `t` has no part. -/
theorem view_congr (hth : s'.threads t = s.threads t)
    (hslots : ∀ i, (s.threads t).slot = some i → s'.slots i = s.slots i)
    (hcur : s'.curEpochId = s.curEpochId) (hplace : s'.gp.map Gp.place = s.gp.map Gp.place)
    (hg : g'.epoch = g.epoch ∧ g'.seen t = g.seen t ∧ g'.loaded t = g.loaded t) :
    view s' g' t = view s g t := by
  have hr : (view s' g' t).reader = (view s g t).reader := by
    simp only [view, hth, hg.2.1, hg.2.2]
    exact Thread.reader_congr rfl rfl hslots
  have hch : (view s' g' t).checked = (view s g t).checked := by
    simp only [view, hth]
    exact propext (exists_gp_congr (p := fun pc _ => pc.Checked (s.threads t).slot) hplace)
  have hh : (view s' g' t).held = (view s g t).held := by
    simp only [view, hth]
    exact propext (exists_gp_congr (p := fun _ n => ∃ o ∈ (s.threads t).sections, o < n) hplace)
  rw [View.eq_of hr (c := (view s g t).cur) (by simp only [view, hcur, hg.1]) (phase_congr hplace),
    hch, hh]

theorem View.Step.of_look {v v' : View} (hr : v'.reader = v.reader) (hcur : v'.cur = v.cur)
    (hp : v'.phase = v.phase) (hc : v'.checked → v.checked ∨ v.reader.Passes v.phase v.cur)
    (hh : v'.held → v.held) : View.Step cfg mayAbandon v v' := by
  rw [View.eq_of hr hcur hp]
  exact .look hc hh

theorem View.Step.of_begin {v v' : View} (hr : v'.reader = v.reader) (hcur : v'.cur = v.cur)
    (hp : v.phase = .quiet) (hp' : v'.phase = .quiet)
    (hh : v'.held → ∃ seen, v.reader = .online seen) : View.Step cfg mayAbandon v v' := by
  rw [View.eq_of hr hcur (hp'.trans hp.symm)]
  exact .begin hp hh

theorem GpPc.Checked.of_slot {pc : GpPc} {slot slot' : Option SlotId} (h : pc.Checked slot')
    (hs : slot' = slot ∨ slot = none) : pc.Checked slot := by
  rcases hs with rfl | rfl
  · exact h
  · unfold Checked at *
    split at h <;> first | exact h | nofun

theorem view_hook {u : Tid} (h : s.Inv cfg) (hm : Core.HookMove s u s')
    (hu : (s.threads u).pc.atUser = false) :
    View.Step cfg mayAbandon (view s g t) (view s' (g.next s (.hook u)) t) := by
  have hf := hm.frame h
  by_cases ht : t = u
  · subst ht
    have hsec : (s.threads t).sections = [] :=
      (h.thread t).sections_nil fun hp => by rw [hp] at hu; cases hu
    have hnot (x : Core) (gp : Gp) (hx : (x.threads t).sections = []) :
        ¬ ∃ o ∈ (x.threads t).sections, o < gp.since := by
      rw [hx]
      rintro ⟨o, ho, -⟩
      cases ho
    have hepoch : (g.next s (.hook t)).epoch = g.epoch := by
      simp only [Ideal.next]
      split <;> rfl
    rw [View.eq_of (v := view s' _ t) rfl (c := (view s g t).cur)
      (by simp only [view, hf.curEpochId, hepoch]) (phase_congr hf.place)]
    refine .move (hm.reader h g) ?_ ?_ ?_
    · intro hc
      have old (hs : (s'.threads t).slot = (s.threads t).slot ∨ (s.threads t).slot = none) :
          (view s g t).checked := by
        obtain ⟨gp, hgp, hc⟩ :=
          (exists_gp_congr (p := fun pc _ => pc.Checked (s'.threads t).slot) hf.place).mp hc
        exact ⟨gp, hgp, hc.of_slot hs⟩
      rcases hf.slot with hs | hs | hs
      · exact .inl (old (.inl hs))
      · exact .inr (Thread.reader_none hs)
      · exact .inl (old (.inr hs))
    · rintro ⟨gp, -, ho⟩
      exact hnot s gp hsec ho
    · rintro ⟨gp, -, ho⟩
      exact hnot s' gp (hf.sections.trans hsec) ho
  · have hg : (g.next s (.hook u)).epoch = g.epoch ∧ (g.next s (.hook u)).seen t = g.seen t ∧
        (g.next s (.hook u)).loaded t = g.loaded t := by
      simp only [Ideal.next]
      split <;> simp [ht]
    rw [view_congr (hf.threads t ht) (fun i hi => hf.slots t i ht hi) hf.curEpochId hf.place hg]
    exact .of_look rfl rfl rfl .inl id

/-- The step of a thread outside of the hooks: the slots and the epoch id stay. -/
theorem view_user {u : Tid} (hne : ∀ v, v ≠ u → s'.threads v = s.threads v)
    (hslot : (s'.threads u).slot = (s.threads u).slot)
    (hl : (s'.threads u).pc.loaded = (s.threads u).pc.loaded)
    (hsec : ∀ gp ∈ s.gp, ∀ o ∈ (s'.threads u).sections, o < gp.since →
      o ∈ (s.threads u).sections)
    (hslots : s'.slots = s.slots) (hcur : s'.curEpochId = s.curEpochId) (hgp : s'.gp = s.gp) :
    View.Step cfg mayAbandon (view s g t) (view s' g t) := by
  by_cases ht : t = u
  · subst ht
    refine .of_look ?_ (by simp only [view, hcur]) (by simp only [view, hgp]) ?_ ?_
    · simp only [view, hslots]
      exact Thread.reader_congr hslot hl fun _ _ => rfl
    · simp only [view, hgp, hslot]
      exact .inl
    · simp only [view, hgp]
      rintro ⟨gp, hgp, o, ho, hlt⟩
      exact ⟨gp, hgp, o, hsec gp hgp o ho hlt, hlt⟩
  · rw [view_congr (hne t ht) (fun _ _ => by rw [hslots]) hcur (by rw [hgp]) ⟨rfl, rfl, rfl⟩]
    exact .of_look rfl rfl rfl .inl id

theorem Wait.predicate_iff {w : Wait} {cur : Stamp} (hw : w.epochId = cur.val) {e : Nat} :
    w.predicate e = true ↔ w.phase.Accepts cur e := by
  cases w <;> simp only [epochId] at hw <;> simp [predicate, phase, Phase.Accepts, hw]

/-- The slot of a thread that is not busy, or has published, or is the scanning thread's own. -/
theorem Wait.passes_cases {w : Wait} {self i : SlotId} {enc seen : Nat}
    (hp : w.passes self i enc = true) (hd : ThreadState.decode enc = some ⟨seen, true⟩) :
    (w = .reset ∧ i = self) ∨ w.predicate seen = true := by
  unfold passes at hp
  split at hp
  · rename_i hc
    simp only [Bool.and_eq_true, Bool.not_eq_true', beq_iff_eq] at hc
    cases w with
    | reset => exact .inl ⟨rfl, hc.2⟩
    | next n => cases hc.1
    | leave => cases hc.1
  · rw [hd] at hp
    exact .inr (by simpa using hp)

/-- What the scan finds out about the thread whose slot it passes. -/
theorem passes_reader (h : s.Inv cfg) {gp : Gp} (hgp : s.gp = some gp) {w : Wait} {sub : Subscriber}
    {self i : SlotId} {len : Nat} (hpc : gp.pc = .scan w sub self len i)
    (hslot : (s.threads t).slot = some i) (hp : w.passes self i (s.slots i) = true) :
    (view s g t).reader.Passes w.phase ⟨s.curEpochId, g.epoch⟩ := by
  have hok := h.gp gp hgp
  have hw : w.epochId = s.curEpochId := (GpPc.epochOk_of_wait (by rw [hpc]; rfl)).mp hok.epoch
  have haccepts {e : Nat} (hpr : w.predicate e = true) :
      w.phase.Accepts ⟨s.curEpochId, g.epoch⟩ e := (Wait.predicate_iff hw).mp hpr
  -- the scanning thread is in the middle of a poll
  have hself (hi : i = self) : (s.threads t).pc = .polling := by
    obtain ⟨u, hu, hus⟩ := hok.scan w sub self len i hpc
    obtain rfl := h.owner t u i hslot (hi ▸ hus)
    rcases hok.runner t hu with hpol | ⟨-, hnone⟩
    · exact hpol
    · rw [hnone] at hslot
      cases hslot
  obtain ⟨sh, ha, hh⟩ := (h.thread t).shape
  cases sh with
  | absent => exact absurd (hslot.symm.trans hh) nofun
  | offline =>
    obtain ⟨j, e, hj, he, hv⟩ := hh
    simp only [view, Thread.reader_offline hj he hv]
    exact .offline
  | fetching =>
    obtain ⟨j, hj, hv⟩ := hh
    obtain rfl := Option.some.inj (hslot.symm.trans hj)
    have hr : (view s g t).reader = .joining ∨ ∃ e, (view s g t).reader = .joined e := by
      cases hl : (s.threads t).pc.loaded with
      | none => exact .inl (Thread.reader_joining hj hv hl)
      | some e => exact .inr ⟨_, Thread.reader_joined hj hv hl⟩
    refine .fetching hr ?_
    rw [hv] at hp
    rcases Wait.passes_cases hp decode_busyFetching with ⟨-, hi⟩ | hpr
    · rw [hself hi] at ha
      cases ha
    · exact haccepts hpr
  | online =>
    obtain ⟨j, e, hj, he, hv⟩ := hh
    obtain rfl := Option.some.inj (hslot.symm.trans hj)
    rw [hv] at hp
    rcases Wait.passes_cases hp (decode_busyAt he.even) with ⟨rfl, hi⟩ | hpr
    · simp only [view, Thread.reader_online hj he hv (by rw [hself hi]; rfl)]
      exact .skip rfl
    · cases hl : (s.threads t).pc.loaded with
      | none =>
        simp only [view, Thread.reader_online hj he hv hl]
        exact .online (haccepts hpr)
      | some e' =>
        simp only [view, Thread.reader_quiescing hj he hv hl]
        exact .quiescing (haccepts hpr)

theorem GpPc.phase_of_between {pc : GpPc} (h : pc.between = some w) : pc.phase = w.phase := by
  cases pc <;> simp [between] at h
  case dropFlag _ _ d | dropInfo _ _ d => cases d <;> simp at h; subst h; rfl
  all_goals subst h; rfl

theorem GpPc.not_checked_of_between {pc : GpPc} {slot : Option SlotId} (h : pc.between = some w) :
    ¬ pc.Checked slot := by
  cases pc <;> simp [between] at h <;> try exact id
  case dropFlag _ _ d | dropInfo _ _ d => cases d <;> simp at h; exact id

theorem view_gp (h : s.Inv cfg) {gp : Gp} (hgp : s.gp = some gp)
    (hm : Core.GpMove cfg s gp (s'.gp.map Gp.pc) s'.curEpochId) (hf : Core.GpFrame s s' gp)
    (hab : s.aborts .gp = true → mayAbandon (view s g t)) :
    View.Step cfg mayAbandon (view s g t) (view s' (g.next s .gp) t) := by
  have hok := (h.gp gp hgp).epoch
  have hphase : (view s g t).phase = gp.pc.phase := by simp [view, hgp]
  have hchecked : gp.pc.Checked (s.threads t).slot → (view s g t).checked := fun hc => ⟨gp, hgp, hc⟩
  have hheld : (view s' (g.next s .gp) t).held → (view s g t).held := by
    rintro ⟨gp', hgp', o, ho, hlt⟩
    exact ⟨gp, hgp, o, by rw [← hf.threads]; exact ho, by rw [← hf.since gp' hgp']; exact hlt⟩
  have hnone (hs : s'.gp.map Gp.pc = none) : ¬ (view s' (g.next s .gp) t).held := by
    rintro ⟨gp', hgp', -⟩
    rw [hgp'] at hs
    cases hs
  have hideal : (g.next s .gp).seen = g.seen ∧ (g.next s .gp).loaded = g.loaded := by
    simp only [Ideal.next]
    split <;> exact ⟨rfl, rfl⟩
  have hv : view s' (g.next s .gp) t =
      { reader := (view s g t).reader
        cur := ⟨s'.curEpochId, (g.next s .gp).epoch⟩
        phase := ((s'.gp.map Gp.pc).map GpPc.phase).getD .quiet
        checked := ∃ p ∈ s'.gp.map Gp.pc, p.Checked (s.threads t).slot
        held := (view s' (g.next s .gp) t).held } := by
    have hc : (view s' (g.next s .gp) t).checked =
        ∃ p ∈ s'.gp.map Gp.pc, p.Checked (s.threads t).slot := by
      simp [view, hf.threads]
    rw [← hc]
    refine View.eq_of ?_ rfl ?_
    · simp only [view, hf.threads, hf.slots, hideal.1, hideal.2]
    · rw [Option.map_map]
      rfl
  have hepoch : (g.next s .gp).epoch = if gp.pc.storesEpoch then g.epoch + 1 else g.epoch := by
    simp only [Ideal.next, hgp, Option.any_some]
    split <;> rfl
  rw [hv, hepoch]
  generalize s'.gp.map Gp.pc = pc' at *
  generalize s'.curEpochId = cur' at *
  cases hm with
  | loadEpoch hpc | loadMax hpc =>
    simp only [hpc]
    exact .of_look rfl rfl (by rw [hphase, hpc]; rfl) (by rintro ⟨p, ⟨⟩, ⟨⟩⟩) hheld
  | storeNext hpc =>
    rw [hpc] at hok hphase
    obtain ⟨rfl, hne⟩ := hok
    rw [Config.nextEpochId_eq h.epoch hne]
    simp only [hpc]
    exact .advance hphase h.epoch hne (by rintro ⟨p, ⟨⟩, ⟨⟩⟩) hheld
  | storeReset hpc =>
    rw [hpc] at hok hphase
    simp only [hpc]
    exact .reset hphase hok (by rintro ⟨p, ⟨⟩, ⟨⟩⟩) hheld
  | storeLeave hpc =>
    rw [hpc] at hok hphase
    simp only [hpc] at hchecked ⊢
    exact .leave hphase (hchecked True.intro) (by rintro ⟨p, ⟨⟩, ⟨⟩⟩) hheld
  | @beginScan w sub u self hpc hr hs =>
    rw [hpc] at hphase
    simp only [hpc]
    refine .of_look rfl rfl hphase.symm ?_ hheld
    rintro ⟨p, ⟨⟩, hc⟩
    -- nothing has been scanned yet, and the scan looks at every slot in use
    cases hslot : (s.threads t).slot with
    | none => 
      refine .inr ?_
      simp only [view, Thread.reader_none hslot]
      exact .offline
    | some i =>
      have hi := (h.live t i hslot).1
      exact ((hc i hslot).elim (Nat.not_lt_zero _) (Nat.not_le_of_lt hi)).elim
  | panic hpc hr hs =>
    simp only [hpc]
    refine .abandon (hab ?_)
    obtain ⟨pc, runner, waker, woken, since⟩ := gp
    cases hpc
    cases hr
    simp [Core.aborts, hgp, Core.tracked, hs]
  | @scanPass w sub self len i hpc hi hp =>
    rw [hpc] at hphase
    simp only [hpc] at hchecked ⊢
    refine .of_look rfl rfl hphase.symm ?_ hheld
    rintro ⟨p, ⟨⟩, hc⟩
    by_cases hslot : (s.threads t).slot = some i
    · exact .inr (hphase ▸ passes_reader h hgp hpc hslot hp)
    · refine .inl (hchecked fun j hj => ?_)
      have hji : j ≠ i := fun he => hslot (he ▸ hj)
      have hc : j < i + 1 ∨ len ≤ j := hc j hj
      show j < i ∨ len ≤ j
      omega
  | scanFail hpc =>
    rw [hpc] at hphase
    simp only [hpc]
    exact .of_look rfl rfl hphase.symm (by rintro ⟨p, ⟨⟩, ⟨⟩⟩) hheld
  | @scanEnd w sub self len i hpc hi =>
    rw [hpc] at hphase
    simp only [hpc] at hchecked ⊢
    refine .of_look rfl rfl hphase.symm (fun _ => .inl (hchecked fun j hj => ?_)) hheld
    show j < i ∨ len ≤ j
    omega
  | @between w pc hw hp =>
    have hst : gp.pc.storesEpoch = false := by
      cases hpc : gp.pc <;> first | rfl | (rw [hpc] at hw; cases hw)
    simp only [hst]
    refine .of_look rfl rfl ?_ ?_ hheld
    · rw [hphase, GpPc.phase_of_between hw]
      exact GpPc.phase_of_between hp
    · rintro ⟨p, ⟨⟩, hc⟩
      exact absurd hc (GpPc.not_checked_of_between hp)
  | @dropFlag w sub d hpc hd =>
    rw [hpc] at hphase
    simp only [hpc] at hchecked ⊢
    cases d with
    | again => exact absurd rfl hd
    | passed => exact .of_look rfl rfl hphase.symm (fun _ => .inl (hchecked True.intro)) hheld
    | abandoned => exact .of_look rfl rfl hphase.symm (by rintro ⟨p, ⟨⟩, ⟨⟩⟩) hheld
  | resetDone hpc =>
    rw [hpc] at hphase
    simp only [hpc] at hchecked ⊢
    exact .of_look rfl rfl hphase.symm (fun _ => .inl (hchecked True.intro)) hheld
  | @finish w sub hpc hw =>
    rw [hpc] at hphase
    simp only [hpc] at hchecked ⊢
    refine .finish ?_ (hchecked True.intro) hheld
    rw [hphase]
    cases w with
    | next n => exact .inl rfl
    | reset => exact absurd rfl hw
    | leave => exact .inr rfl
  | abort hpc =>
    rw [hpc] at hphase
    simp only [hpc]
    exact .of_look rfl rfl hphase.symm (by rintro ⟨p, ⟨⟩, ⟨⟩⟩) hheld
  | done hpc =>
    rcases hpc with hpc | hpc <;> rw [hpc] at hphase <;> simp only [hpc]
    · exact .forget hphase (hnone rfl)
    · exact .of_look rfl rfl hphase.symm (by rintro ⟨p, ⟨⟩, -⟩) hheld

/-- A thread with an open section is in a poll. -/
theorem reader_of_section (h : s.Inv cfg) (ho : o ∈ (s.threads t).sections) :
    ∃ seen, (view s g t).reader = .online seen := by
  have hpc : (s.threads t).pc = .polling :=
    (h.thread t).sections.resolve_left fun hnil => by rw [hnil] at ho; cases ho
  obtain ⟨i, e, hi, he, hv⟩ := (h.thread t).holds .online (by rw [hpc]; exact fun _ h => h)
  exact ⟨_, Thread.reader_online hi he hv (by rw [hpc]; rfl)⟩

theorem view_step {a : Act} (h : s.Inv cfg) (hsince : ∀ gp ∈ s.gp, gp.since ≤ s.clock)
    (hab : s.aborts a = true → mayAbandon (view s g t))
    (hs : s.step cfg a = some s') :
    View.Step cfg mayAbandon (view s g t) (view s' (g.next s a) t) := by
  obtain ⟨s₁, rfl, hm⟩ := Core.step_move hs
  show View.Step cfg mayAbandon (view s g t) (view s₁ (g.next s a) t)
  cases hm with
  | @call u k hf =>
    have hgoto (pc : Pc) (hl : pc.loaded = none) :
        View.Step cfg mayAbandon (view s g t) (view (s.goto u pc) g t) := by
      refine view_user (u := u) (fun v hv => Core.goto_ne s u pc hv) (by simp) ?_
        (fun gp _ o ho _ => by simpa using ho) rfl rfl rfl
      rw [Core.goto_pc, hl, Pc.loaded_of_atUser (Core.atUser_of_free hf)]
    cases k <;> simp only [Core.callHook] <;> refine hgoto _ ?_ <;> first | rfl | (split <;> rfl)
  | hook hs hm => exact view_hook h hm (Core.hookStep_atUser hs)
  | @openSection u hf _ =>
    refine view_user (u := u) (fun v hv => Core.setThread_ne s u _ hv) (by simp) (by simp) ?_
      rfl rfl rfl
    -- a section that is opened now is younger than the grace period
    intro gp hgp o ho hlt
    rw [Core.setThread_self] at ho
    rcases List.mem_cons.mp ho with rfl | ho
    · exact absurd hlt (Nat.not_lt.mpr (hsince gp hgp))
    · exact ho
  | @closeSection u o rest hf hsec =>
    refine view_user (u := u) (fun v hv => Core.setThread_ne s u _ hv) (by simp) (by simp) ?_
      rfl rfl rfl
    intro gp _ p hp _
    rw [Core.setThread_self] at hp
    rw [hsec]
    exact List.mem_cons_of_mem o hp
  | begin hf hg =>
    have hphase : (view s g t).phase = .quiet := by simp [view, hg]
    refine .of_begin rfl rfl hphase rfl ?_
    rintro ⟨gp, -, o, ho, -⟩
    exact reader_of_section h ho
  | poll hf hg hpc hr =>
    refine .of_look rfl rfl ?_ ?_ ?_
    · simp [view, hg, hpc, GpPc.phase]
    · rintro ⟨gp, ⟨⟩, ⟨⟩⟩
    · rintro ⟨gp, ⟨⟩, o, ho, hlt⟩
      exact ⟨_, hg, o, ho, hlt⟩
  | gp hg _ hm hf => exact view_gp h hg hm hf hab
  | abandon hg hpc hr => exact .abandon (hab rfl)
  | other => exact .of_look rfl rfl rfl .inl id

end
end TokioRcu
