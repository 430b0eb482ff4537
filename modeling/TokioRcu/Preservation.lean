import TokioRcu.Invariant

/-!
# Every step keeps the invariant

One lemma for each kind of step, over the moves of `TokioRcu.Moves`; together
they make `Core.Inv` inductive in tokio's order.
-/

namespace TokioRcu

-- ---------------------------------------------------------------------------
-- Preservation by the threads
-- ---------------------------------------------------------------------------

namespace Core

variable {cfg : Config} {s s' : Core} {t : Tid}

/-- The performer's part does not depend on a thread that is not polling it. -/
theorem Inv.gp_of_place (h : s.Inv cfg) (hplace : s'.gp.map Gp.place = s.gp.map Gp.place)
    (hcur : s'.curEpochId = s.curEpochId)
    (hth : ∀ g ∈ s.gp, ∀ u, g.runner = some u → s'.threads u = s.threads u) :
    ∀ g ∈ s'.gp, GpOk cfg s' g.pc g.runner := by
  intro g' hg'
  obtain ⟨g, hg, hp⟩ : ∃ g, s.gp = some g ∧ g.place = g'.place := by
    have hm : s.gp.map Gp.place = some g'.place := by rw [← hplace, hg']; rfl
    exact Option.map_eq_some_iff.mp hm
  obtain ⟨hpc, hrun, -⟩ : g.pc = g'.pc ∧ g.runner = g'.runner ∧ g.since = g'.since := by
    simpa [Gp.place] using hp
  have hok := h.gp g hg
  rw [hpc, hrun] at hok
  refine ⟨by rw [hcur]; exact hok.epoch, ?_, ?_⟩
  · intro u hu
    rw [hth g hg u (hrun.trans hu)]
    exact hok.runner u hu
  · intro w sub self len i hs
    obtain ⟨u, hu, hslot⟩ := hok.scan w sub self len i hs
    exact ⟨u, hu, by rw [hth g hg u (hrun.trans hu)]; exact hslot⟩

/-- A step of thread `t` that keeps its slot, and writes at most that slot. -/
theorem Inv.update (h : s.Inv cfg) (hrun : ∀ g ∈ s.gp, g.runner ≠ some t)
    (hth : ∀ u, u ≠ t → s'.threads u = s.threads u)
    (hslot : (s'.threads t).slot = (s.threads t).slot)
    (hslots : ∀ i, (s.threads t).slot ≠ some i → s'.slots i = s.slots i)
    (hlen : s'.len = s.len) (hfree : s'.freeSlots = s.freeSlots)
    (hcur : s'.curEpochId = s.curEpochId) (hplace : s'.gp.map Gp.place = s.gp.map Gp.place)
    (hok : ThreadOk cfg s'.slots (s'.threads t)) : s'.Inv cfg := by
  have hsl (u) : (s'.threads u).slot = (s.threads u).slot := by
    by_cases hu : u = t
    · rw [hu, hslot]
    · rw [hth u hu]
  refine ⟨?_, ?_, ?_, ?_, ?_, ?_, ?_, ?_⟩
  · intro u
    by_cases hu : u = t
    · exact hu ▸ hok
    · rw [hth u hu]
      refine (h.thread u).congr fun i hi => hslots i fun ht => hu ?_
      exact h.owner u t i hi ht
  · intro u v i hu hv
    rw [hsl] at hu hv
    exact h.owner u v i hu hv
  · intro u i hu
    rw [hsl] at hu
    rw [hlen, hfree]
    exact h.live u i hu
  · rw [hlen, hfree]
    exact h.free
  · rw [hfree]
    exact h.nodup
  · intro i hi
    rw [hslots i fun ht => hi t (hslot.trans ht)]
    exact h.vacant i fun u hu => hi u ((hsl u).trans hu)
  · rw [hcur]
    exact h.epoch
  · exact h.gp_of_place hplace hcur fun g hg u hu => hth u fun he => hrun g hg (he ▸ hu)

/-- A step of thread `t` that only moves its program counter. -/
theorem Inv.goto (h : s.Inv cfg) (hrun : ∀ g ∈ s.gp, g.runner ≠ some t) {pc : Pc}
    (hok : ThreadOk cfg s.slots { s.threads t with pc := pc }) : (s.goto t pc).Inv cfg :=
  h.update hrun (fun _ hu => goto_ne s t pc hu) (by simp) (fun _ _ => rfl) rfl rfl rfl rfl
    (by simpa [Core.goto] using hok)

/-- A store to the thread's own slot. -/
theorem Inv.store (h : s.Inv cfg) (hrun : ∀ g ∈ s.gp, g.runner ≠ some t) {i : SlotId} {v : Nat}
    {pc : Pc} (hi : (s.threads t).slot = some i)
    (hok : ThreadOk cfg (Function.update s.slots i v) { s.threads t with pc := pc }) :
    ((s.storeState i v).goto t pc).Inv cfg := by
  refine h.update hrun (fun _ hu => goto_ne _ t pc hu) (by simp) ?_ rfl rfl rfl rfl ?_
  · intro j hj
    exact storeState_ne s i v fun he => hj (he ▸ hi)
  · simpa [Core.goto, storeState] using hok

theorem Inv.vacantSlot (h : s.Inv cfg) (hrun : ∀ g ∈ s.gp, g.runner ≠ some t) {i : SlotId}
    (hi : (s.threads t).slot = some i) (hpc : (s.threads t).pc ≠ .polling) :
    (s.deallocSlot t i (.notifyFence .stop)).Inv cfg := by
  have hself : ((s.deallocSlot t i (.notifyFence .stop)).threads t) =
      { s.threads t with slot := none, pc := .notifyFence .stop } := by simp [deallocSlot]
  have hne {u} (hu : u ≠ t) : (s.deallocSlot t i (.notifyFence .stop)).threads u = s.threads u :=
    setThread_ne _ t _ hu
  have hslots {j} (hj : j ≠ i) : (s.deallocSlot t i (.notifyFence .stop)).slots j = s.slots j :=
    storeState_ne _ i _ hj
  refine ⟨?_, ?_, ?_, ?_, ?_, ?_, h.epoch, ?_⟩
  · intro u
    by_cases hu : u = t
    · subst hu
      rw [hself]
      exact ⟨⟨.absent, rfl, rfl⟩, nofun, nofun, .inl ((h.thread _).sections_nil hpc)⟩
    · rw [hne hu]
      exact (h.thread u).congr fun j hj => hslots fun he => hu (h.owner u t j hj (he ▸ hi))
  · intro u v j hu hv
    by_cases hut : u = t
    · rw [hut, hself] at hu
      cases hu
    · by_cases hvt : v = t
      · rw [hvt, hself] at hv
        cases hv
      · rw [hne hut] at hu
        rw [hne hvt] at hv
        exact h.owner u v j hu hv
  · intro u j hu
    by_cases hut : u = t
    · rw [hut, hself] at hu
      cases hu
    · rw [hne hut] at hu
      refine ⟨(h.live u j hu).1, ?_⟩
      intro hj
      rcases List.mem_cons.mp hj with rfl | hj
      · exact hut (h.owner u t _ hu hi)
      · exact (h.live u j hu).2 hj
  · intro j hj
    rcases List.mem_cons.mp hj with rfl | hj
    · exact (h.live t _ hi).1
    · exact h.free j hj
  · exact List.nodup_cons.mpr ⟨(h.live t i hi).2, h.nodup⟩
  · intro j hj
    by_cases hji : j = i
    · subst hji
      exact storeState_self _ _ _
    · rw [hslots hji]
      refine h.vacant j fun u hu => ?_
      by_cases hut : u = t
      · subst hut
        exact hji (Option.some.inj (hu.symm.trans hi))
      · exact hj u (by rw [hne hut]; exact hu)
  · exact h.gp_of_place rfl rfl fun g hg u hu => hne fun he => hrun g hg (he ▸ hu)

/-- The slot that an allocation hands out: the top of the free stack, or a new one. -/
theorem allocSlot_cases (s : Core) (t : Tid) (v : Nat) (pc : Pc) :
    ∃ i, (s.allocSlot t v pc).threads = Function.update s.threads t
        { s.threads t with slot := some i, pc := pc } ∧
      (s.allocSlot t v pc).slots = Function.update s.slots i v ∧
      (s.allocSlot t v pc).curEpochId = s.curEpochId ∧
      (s.allocSlot t v pc).gp = s.gp ∧
      (i :: (s.allocSlot t v pc).freeSlots = s.freeSlots ∧ (s.allocSlot t v pc).len = s.len ∨
        i = s.len ∧ (s.allocSlot t v pc).freeSlots = [] ∧ s.freeSlots = [] ∧
          (s.allocSlot t v pc).len = s.len + 1) := by
  unfold allocSlot
  split
  · rename_i i rest hf
    exact ⟨i, rfl, rfl, rfl, rfl, .inl ⟨hf.symm, rfl⟩⟩
  · rename_i hf
    exact ⟨s.len, rfl, rfl, rfl, rfl, .inr ⟨rfl, hf, hf, rfl⟩⟩

/-- A slot that an allocation may hand out is nobody's. -/
theorem Inv.not_owned (h : s.Inv cfg) {i : SlotId} (hi : i ∈ s.freeSlots ∨ i = s.len) (u : Tid) :
    (s.threads u).slot ≠ some i := by
  intro hu
  have hl := h.live u i hu
  rcases hi with hi | rfl
  · exact hl.2 hi
  · exact absurd hl.1 (Nat.lt_irrefl _)

theorem Inv.alloc (h : s.Inv cfg) (hrun : ∀ g ∈ s.gp, g.runner ≠ some t)
    (hslot : (s.threads t).slot = none) (hsec : (s.threads t).sections = []) :
    (s.allocSlot t busyFetching (.entryFence .beforePoll)).Inv cfg := by
  obtain ⟨i, hth, hslots, hcur, hgp, hfree⟩ :=
    allocSlot_cases s t busyFetching (.entryFence .beforePoll)
  have hi := h.not_owned (hfree.imp (fun hc => hc.1 ▸ List.mem_cons_self) (fun hl => hl.1))
  generalize s.allocSlot t busyFetching (.entryFence .beforePoll) = s' at *
  have hself : s'.threads t = { s.threads t with slot := some i, pc := .entryFence .beforePoll } := by
    rw [hth, Function.update_self]
  have hne {u} (hu : u ≠ t) : s'.threads u = s.threads u := by
    rw [hth, Function.update_of_ne hu]
  have hsl {j} (hj : j ≠ i) : s'.slots j = s.slots j := by
    rw [hslots, Function.update_of_ne hj]
  have hnodup : (i :: s'.freeSlots).Nodup ∧ (∀ j ∈ i :: s'.freeSlots, j < s'.len) ∧
      s.len ≤ s'.len ∧ ∀ j ∈ s'.freeSlots, j ∈ s.freeSlots := by
    rcases hfree with ⟨hc, hlen⟩ | ⟨rfl, hnil, -, hlen⟩
    · rw [hc, hlen]
      exact ⟨h.nodup, h.free, Nat.le_refl _, fun j hj => hc ▸ List.mem_cons_of_mem i hj⟩
    · rw [hnil, hlen]
      simp
  obtain ⟨hnodup, hlt, hlen, hsub⟩ := hnodup
  refine ⟨?_, ?_, ?_, ?_, ?_, ?_, ?_, ?_⟩
  · intro u
    by_cases hu : u = t
    · subst hu
      rw [hself]
      refine ⟨⟨.fetching, rfl, i, rfl, ?_⟩, nofun, nofun, .inl hsec⟩
      rw [hslots, Function.update_self]
    · rw [hne hu]
      exact (h.thread u).congr fun j hj => hsl fun he => hi u (he ▸ hj)
  · intro u v j hu hv
    by_cases hut : u = t <;> by_cases hvt : v = t
    · rw [hut, hvt]
    · rw [hut, hself] at hu
      rw [hne hvt] at hv
      exact absurd (hv.trans hu.symm) (hi v)
    · rw [hvt, hself] at hv
      rw [hne hut] at hu
      exact absurd (hu.trans hv.symm) (hi u)
    · rw [hne hut] at hu
      rw [hne hvt] at hv
      exact h.owner u v j hu hv
  · intro u j hu
    by_cases hut : u = t
    · rw [hut, hself] at hu
      cases hu
      exact ⟨hlt i List.mem_cons_self, (List.nodup_cons.mp hnodup).1⟩
    · rw [hne hut] at hu
      have hl := h.live u j hu
      exact ⟨Nat.lt_of_lt_of_le hl.1 hlen, fun hj => hl.2 (hsub j hj)⟩
  · exact fun j hj => hlt j (List.mem_cons_of_mem i hj)
  · exact (List.nodup_cons.mp hnodup).2
  · intro j hj
    have hji : j ≠ i := by
      rintro rfl
      exact hj t (by rw [hself])
    rw [hsl hji]
    refine h.vacant j fun u hu => ?_
    by_cases hut : u = t
    · subst hut
      rw [hslot] at hu
      cases hu
    · exact hj u (by rw [hne hut]; exact hu)
  · rw [hcur]
    exact h.epoch
  · exact h.gp_of_place (by rw [hgp]) hcur fun g hg u hu => hne fun he => hrun g hg (he ▸ hu)
/-- A thread inside a hook holds what its program counter says. -/
theorem Inv.hook (h : s.Inv cfg) (hm : HookMove s t s') (hu : (s.threads t).pc.atUser = false) :
    s'.Inv cfg := by
  have hrun : ∀ g ∈ s.gp, g.runner ≠ some t := fun g hg => h.not_runner hg hu
  have hok := h.thread t
  have hsec : (s.threads t).sections = [] := hok.sections_nil fun hp => by rw [hp] at hu; cases hu
  cases hm with
  | dealloc hpc hi => exact h.vacantSlot hrun hi (by rw [hpc]; nofun)
  | clearBusy hpc hi =>
    obtain ⟨j, e, hj, he, hv⟩ := hok.holds .online (by rw [hpc]; exact fun _ h => h)
    cases hi.symm.trans hj
    refine h.store hrun hi ⟨⟨.offline, rfl, _, e, hi, he, ?_⟩, nofun, nofun, .inl hsec⟩
    rw [Function.update_self, hv, clearBusy_busyAt he.even]
  | @markBusy i hpc hi =>
    exact h.store hrun hi
      ⟨⟨.fetching, rfl, i, hi, Function.update_self ..⟩, nofun, nofun, .inl hsec⟩
  | alloc hpc =>
    exact h.alloc hrun (hok.holds .absent (by rw [hpc]; exact fun _ h => h)) hsec
  | entryFence hpc =>
    refine h.goto hrun ⟨⟨.fetching, rfl, ?_⟩, nofun, nofun, .inl hsec⟩
    exact hok.holds _ (by rw [hpc]; exact fun _ h => h)
  | seeEpoch hpc =>
    refine h.goto hrun ⟨⟨.fetching, rfl, ?_⟩, ?_, nofun, .inl hsec⟩
    · exact hok.holds _ (by rw [hpc]; exact fun _ h => h)
    · rintro e he
      cases he
      exact h.epoch
  | @publish w e i hpc hi =>
    refine h.store hrun hi ⟨⟨.online, ?_, i, e, hi, ?_, Function.update_self ..⟩, nofun, nofun,
      .inl hsec⟩
    · cases w <;> rfl
    · exact hok.loaded e (by rw [hpc]; rfl)
  | seeNewEpoch hpc hi =>
    refine h.goto hrun ⟨⟨.online, rfl, ?_⟩, ?_, nofun, .inl hsec⟩
    · exact hok.holds _ (by rw [hpc]; exact fun _ h => h)
    · rintro e he
      cases he
      exact h.epoch
  | @loadPrev e i hpc hi =>
    refine h.goto hrun ⟨⟨.online, rfl, ?_⟩, ?_, ?_, .inl hsec⟩
    · exact hok.holds _ (by rw [hpc]; exact fun _ h => h)
    · rintro e' he
      cases he
      exact hok.loaded e (by rw [hpc]; rfl)
    · rintro e' prev hp
      cases hp
      exact ⟨i, hi, rfl⟩
  | @storeSeen e prev i pc hpc hi hto =>
    obtain ⟨j, e', hj, he', hv⟩ := hok.holds .online (by rw [hpc]; exact fun _ h => h)
    obtain ⟨k, hk, hp⟩ := hok.prev e prev hpc
    cases hi.symm.trans hj
    cases hi.symm.trans hk
    -- so neither the `unwrap` nor the assertion fails
    rw [← hp, hv, decode_busyAt he'.even] at hto
    have hto' : pc = .idle ∨ pc = .notifyFence .afterPoll := by
      simp only at hto
      split at hto
      · exact .inl hto
      · exact .inr hto
    have he : cfg.ValidEpochId e := hok.loaded e (by rw [hpc]; rfl)
    refine h.store hrun hi ⟨⟨.online, ?_, i, e, hi, he, Function.update_self ..⟩, ?_, ?_, .inl hsec⟩
    · rcases hto' with rfl | rfl
      · exact .inr rfl
      · rfl
    · rcases hto' with rfl | rfl <;> nofun
    · rcases hto' with rfl | rfl <;> nofun
  | panic hn hslot =>
    -- only threads that own a slot get to where it is looked up
    exfalso
    obtain ⟨sh, ha, hh⟩ := hok.shape
    rw [hslot] at hh
    obtain rfl := Shape.absent_of_none hh
    cases hpc : (s.threads t).pc <;> simp [hpc, Pc.needsSlot, Pc.Allows] at hn ha
  | @notify k pc _ hn hto hf =>
    have hself : s'.threads t = { s.threads t with pc := pc } := by
      rw [hf.threads, Core.goto, setThread_self]
    refine h.update hrun (fun u hu => by rw [hf.threads]; exact goto_ne s t _ hu) (by rw [hself])
      (fun _ _ => by rw [hf.slots]) hf.len hf.freeSlots hf.curEpochId hf.place ?_
    rw [hself, hf.slots]
    have hsh : k.shape.Holds cfg s.slots (s.threads t).slot :=
      hok.holds _ fun _ ha => ha.notifying hn
    have hpc : pc.Allows k.shape ∧ pc.loaded = none := by
      rcases hto with rfl | hto
      · exact ⟨k.ret_allows, k.ret_loaded⟩
      · exact ⟨Pc.allows_of_notifying hto, Pc.loaded_of_notifying hto⟩
    exact .quiet hpc.1 hsh hpc.2 (.inl hsec)

/-- A hook called in tokio's order finds the slot as its thread left it. -/
theorem Inv.call (h : s.Inv cfg) (hf : s.free t = true) {k : Hook}
    (ho : TokioOrder s (.call t k)) : (s.callHook t k).Inv cfg := by
  have hrun : ∀ g ∈ s.gp, g.runner ≠ some t := fun g hg => not_runner_of_free hf hg
  obtain ⟨sh, ha, hh⟩ := (h.thread t).shape
  have hsec : (s.threads t).pc ≠ .polling → (s.threads t).sections = [] := (h.thread t).sections_nil
  have htr : s.tracked t = true ↔ sh ≠ .absent := hh.isSome_iff
  -- a hook that first asks for the slot
  have ask {p q : Pc} (hne : (s.threads t).pc ≠ .polling) (hp : sh ≠ .absent → p.Allows sh)
      (hq : sh = .absent → q.Allows sh) (hpl : p.loaded = none) (hql : q.loaded = none) :
      (s.goto t (if s.tracked t then p else q)).Inv cfg := by
    split
    · rename_i hs
      exact h.goto hrun (.quiet (hp (htr.mp hs)) hh hpl (.inl (hsec hne)))
    · rename_i hs
      have hsh : sh = .absent := Classical.not_not.mp (mt htr.mpr hs)
      exact h.goto hrun (.quiet (hq hsh) hh hql (.inl (hsec hne)))
  cases k with
  | stop =>
    have hpc : (s.threads t).pc = .idle := ho
    rw [hpc] at ha ask
    exact ask nofun ha.resolve_left .inl rfl rfl
  | park =>
    have hpc : (s.threads t).pc = .idle := ho
    rw [hpc] at ha ask
    exact ask nofun ha.resolve_left .inl rfl rfl
  | unpark =>
    have hpc : (s.threads t).pc = .parked := ho
    rw [hpc] at ha ask
    exact ask nofun ha.resolve_left .inl rfl rfl
  | beforePoll =>
    have hpc : (s.threads t).pc = .idle := ho
    rw [hpc] at ha ask
    exact ask nofun ha.resolve_left id rfl rfl
  | afterPoll =>
    obtain ⟨hpc, hnil⟩ : (s.threads t).pc = .polling ∧ (s.threads t).sections = [] := ho
    rw [hpc] at ha
    exact h.goto hrun (.quiet ha hh rfl (.inl hnil))

/-- Opening or closing a section moves nothing that the invariant reads. -/
theorem Inv.sections (h : s.Inv cfg) (hf : s.free t = true) (hpc : (s.threads t).pc = .polling)
    (l : List Nat) : (s.setThread t { s.threads t with sections := l }).Inv cfg := by
  have hrun : ∀ g ∈ s.gp, g.runner ≠ some t := fun g hg => not_runner_of_free hf hg
  refine h.update hrun (fun _ hu => setThread_ne s t _ hu) (by simp) (fun _ _ => rfl) rfl rfl rfl
    rfl ?_
  have hok := h.thread t
  rw [setThread_self]
  exact ⟨hok.shape, hok.loaded, hok.prev, .inr hpc⟩

/-- What the step of a hook leaves alone. -/
structure HookFrame (s s' : Core) (t : Tid) : Prop where
  threads : ∀ u, u ≠ t → s'.threads u = s.threads u
  slots : ∀ u i, u ≠ t → (s.threads u).slot = some i → s'.slots i = s.slots i
  sections : (s'.threads t).sections = (s.threads t).sections
  slot : (s'.threads t).slot = (s.threads t).slot ∨ (s'.threads t).slot = none ∨
    (s.threads t).slot = none
  curEpochId : s'.curEpochId = s.curEpochId
  place : s'.gp.map Gp.place = s.gp.map Gp.place
  clock : s'.clock = s.clock

theorem HookMove.frame (h : s.Inv cfg) (hm : HookMove s t s') : HookFrame s s' t := by
  -- a store to the thread's own slot, or none
  have goto (pc) : HookFrame s (s.goto t pc) t :=
    ⟨fun _ hu => goto_ne s t pc hu, fun _ _ _ _ => rfl, by simp, .inl (by simp), rfl, rfl, rfl⟩
  have store {i v} (pc) (hi : (s.threads t).slot = some i) :
      HookFrame s ((s.storeState i v).goto t pc) t := by
    refine ⟨fun _ hu => goto_ne _ t pc hu, ?_, by simp, .inl (by simp), rfl, rfl, rfl⟩
    intro u j hu hj
    exact storeState_ne s i v fun he => hu (h.owner u t j hj (he ▸ hi))
  cases hm with
  | @dealloc i hpc hi =>
    refine ⟨fun u hu => setThread_ne _ t _ hu, ?_, by simp [deallocSlot],
      .inr (.inl (by simp [deallocSlot])), rfl, rfl, rfl⟩
    intro u j hu hj
    exact storeState_ne _ i _ fun he => hu (h.owner u t j hj (he ▸ hi))
  | alloc hpc =>
    have hslot : (s.threads t).slot = none := (h.thread t).holds .absent (by
      rw [hpc]
      exact fun _ h => h)
    obtain ⟨i, hth, hslots, hcur, hgp, hfree⟩ :=
      allocSlot_cases s t busyFetching (.entryFence .beforePoll)
    refine ⟨?_, ?_, ?_, .inr (.inr hslot), hcur, by rw [hgp], ?_⟩
    · intro u hu
      rw [hth, Function.update_of_ne hu]
    · intro u j hu hj
      have hi := h.not_owned (hfree.imp (fun hc => hc.1 ▸ List.mem_cons_self) (fun hl => hl.1)) u
      rw [hslots, Function.update_of_ne]
      rintro rfl
      exact hi hj
    · rw [hth, Function.update_self]
    · unfold allocSlot
      split <;> rfl
  | clearBusy _ hi | markBusy _ hi | publish _ hi | storeSeen _ hi => exact store _ hi
  | entryFence | seeEpoch | seeNewEpoch | loadPrev | panic => exact goto _
  | @notify k pc _ hn hto hf =>
    refine ⟨?_, fun _ _ _ _ => by rw [hf.slots], ?_, .inl ?_, hf.curEpochId, hf.place, hf.clock⟩
    · intro u hu
      rw [hf.threads]
      exact goto_ne s t pc hu
    · rw [hf.threads, goto_sections]
    · rw [hf.threads, goto_slot]

-- ---------------------------------------------------------------------------
-- Preservation by the performer
-- ---------------------------------------------------------------------------

theorem Inv.gpOnly (h : s.Inv cfg) (hth : s'.threads = s.threads) (hslots : s'.slots = s.slots)
    (hlen : s'.len = s.len) (hfree : s'.freeSlots = s.freeSlots)
    (hcur : cfg.ValidEpochId s'.curEpochId) (hgp : ∀ g ∈ s'.gp, GpOk cfg s' g.pc g.runner) :
    s'.Inv cfg := by
  refine ⟨?_, ?_, ?_, ?_, ?_, ?_, hcur, hgp⟩
  · rw [hth, hslots]
    exact h.thread
  · rw [hth]
    exact h.owner
  · rw [hth, hlen, hfree]
    exact h.live
  · rw [hlen, hfree]
    exact h.free
  · rw [hfree]
    exact h.nodup
  · rw [hth, hslots]
    exact h.vacant

/-- Where the performer may go, from the epoch id it finds. -/
theorem GpMove.epochOk {g : Gp} {pc : Option GpPc} {cur : Nat} (hm : GpMove cfg s g pc cur)
    (hcur : cfg.ValidEpochId s.curEpochId) (hg : g.pc.EpochOk cfg s.curEpochId) :
    cfg.ValidEpochId cur ∧ ∀ p ∈ pc, p.EpochOk cfg cur := by
  -- the wait goes on and the epoch id stays
  have stay {w : Wait} {p : GpPc} (hw : g.pc.wait = some w) (hp : p.wait = some w) :
      cfg.ValidEpochId s.curEpochId ∧ ∀ q ∈ some p, q.EpochOk cfg s.curEpochId := by
    refine ⟨hcur, ?_⟩
    rintro q ⟨⟩
    exact (GpPc.epochOk_of_wait hp).mpr ((GpPc.epochOk_of_wait hw).mp hg)
  cases hm with
  | loadEpoch hpc hne =>
    refine ⟨hcur, ?_⟩
    rintro p ⟨⟩
    exact ⟨rfl, hne⟩
  | loadMax hpc he =>
    refine ⟨hcur, ?_⟩
    rintro p ⟨⟩
    exact he
  | storeNext hpc =>
    rw [hpc] at hg
    obtain ⟨rfl, hne⟩ := hg
    rw [Config.nextEpochId_eq hcur hne]
    refine ⟨hcur.next hne, ?_⟩
    rintro p ⟨⟩ w ⟨⟩
    rfl
  | storeReset hpc =>
    refine ⟨cfg.validEpochId_min, ?_⟩
    rintro p ⟨⟩ w ⟨⟩
    rfl
  | storeLeave hpc =>
    refine ⟨cfg.validEpochId_leave, ?_⟩
    rintro p ⟨⟩ w ⟨⟩
    rfl
  | beginScan hpc | panic hpc | scanPass hpc | scanFail hpc | scanEnd hpc | dropFlag hpc =>
    exact stay (by rw [hpc]; rfl) rfl
  | between hw hp => exact stay (GpPc.wait_of_between hw) (GpPc.wait_of_between hp)
  | resetDone hpc =>
    refine ⟨hcur, ?_⟩
    rintro p ⟨⟩
    exact ((GpPc.epochOk_of_wait (by rw [hpc]; rfl)).mp hg).symm
  | finish hpc | abort hpc =>
    refine ⟨hcur, ?_⟩
    rintro p ⟨⟩ w ⟨⟩
  | done hpc => exact ⟨hcur, nofun⟩

theorem Inv.performer (h : s.Inv cfg) {g : Gp} (hg : s.gp = some g)
    (hm : GpMove cfg s g (s'.gp.map Gp.pc) s'.curEpochId) (hf : GpFrame s s' g) : s'.Inv cfg := by
  have hok := h.gp g hg
  obtain ⟨hcur, hpc⟩ := GpMove.epochOk hm h.epoch hok.epoch
  refine h.gpOnly hf.threads hf.slots hf.len hf.freeSlots hcur fun g' hg' => ⟨?_, ?_, ?_⟩
  · exact hpc g'.pc (by rw [hg']; rfl)
  · intro t ht
    rw [hf.threads]
    rcases hf.runner g' hg' with hr | ⟨hr, -⟩
    · exact hok.runner t (hr ▸ ht)
    · rw [hr] at ht
      cases ht
  · intro w sub self len i hs
    have hr : g'.runner = g.runner := by
      rcases hf.runner g' hg' with hr | ⟨-, hb⟩
      · exact hr
      · rw [hs] at hb
        cases hb
    rw [hr, hf.threads]
    have hs' : s'.gp.map Gp.pc = some (.scan w sub self len i) := by rw [hg', ← hs]; rfl
    rw [hs'] at hm
    generalize s'.curEpochId = cur at hm
    cases hm with
    | beginScan hpc ht hslot => exact ⟨_, ht, hslot⟩
    | scanPass hpc => exact hok.scan _ _ _ _ _ hpc
    | between hw hp => cases hp

-- ---------------------------------------------------------------------------
-- All steps
-- ---------------------------------------------------------------------------

theorem Inv.tick (h : s.Inv cfg) : s.tick.Inv cfg :=
  ⟨h.thread, h.owner, h.live, h.free, h.nodup, h.vacant, h.epoch,
    fun g hg => ⟨(h.gp g hg).epoch, (h.gp g hg).runner, (h.gp g hg).scan⟩⟩

theorem Inv.begin (h : s.Inv cfg) {g : Gp} (he : g.pc.EpochOk cfg s.curEpochId)
    (hr : ∀ t, g.runner = some t → (s.threads t).pc = .polling ∨
      ((s.threads t).pc = .idle ∧ (s.threads t).slot = none))
    (hb : ∀ w sub self len i, g.pc ≠ .scan w sub self len i) : (s.setGp g).Inv cfg := by
  refine h.gpOnly rfl rfl rfl rfl h.epoch ?_
  rintro g' ⟨⟩
  exact ⟨he, hr, fun w sub self len i hs => absurd hs (hb w sub self len i)⟩

theorem Inv.move (h : s.Inv cfg) {a : Act} (ho : TokioOrder s a) (hm : Move cfg s a s') :
    s'.Inv cfg := by
  cases hm with
  | call hf => exact h.call hf ho
  | hook hs hm => exact h.hook hm (hookStep_atUser hs)
  | openSection hf _ => exact h.sections hf ho _
  | closeSection hf _ => exact h.sections hf ho _
  | begin hf hg =>
    refine h.begin (fun w hw => by cases hw) ?_ nofun
    rintro t ⟨⟩
    exact ho
  | poll hf hg hpc hr =>
    have he := (h.gp _ hg).epoch
    rw [hpc] at he
    refine h.begin he ?_ nofun
    rintro t ⟨⟩
    exact ho
  | gp hg _ hm hf => exact h.performer hg hm hf
  | abandon hg hpc hr =>
    have he := (h.gp _ hg).epoch
    rw [hpc] at he
    refine h.begin he ?_ nofun
    intro t ht
    exact absurd ht (by rw [hr]; nofun)
  | other => exact h

/-- The invariant holds on every run in tokio's order. -/
theorem inv_inductive : (machine cfg).Inductive TokioOrder (Core.Inv cfg) := by
  refine ⟨?_, ?_⟩
  · rintro s ⟨hv, -, he⟩
    rw [he]
    refine ⟨fun t => ?_, nofun, nofun, nofun, .nil, fun _ _ => rfl, hv, nofun⟩
    exact ⟨⟨.absent, .inl rfl, rfl⟩, nofun, nofun, .inl rfl⟩
  · intro s a s' h ho hs
    obtain ⟨s₁, rfl, hm⟩ := step_move hs
    exact (h.move ho hm).tick

end Core
end TokioRcu
