import TokioRcu.DelayedReaders

/-!
# Grace periods over delayed stores

The performer's store of an epoch id reaches the others some time before the
fence of the first scan. Until then the grace period is where it was for every
thread, and from then on every step is one of `View.Step`, as it is without
store buffers.
-/

namespace TokioRcu

/-- The wait whose scan has not come to its fence. -/
def GpPc.opening : GpPc → Option Wait
  | .subscribe w | .loadSnapshot w | .scanFence w _ => some w
  | _ => none

/-- The phase the others are in while the epoch id of the wait is on its way. -/
def Wait.before : Wait → Phase
  | .next _ | .reset => .quiet
  | .leave => .reset

/-- The wait is for the epoch id that comes after `cur`. -/
def Wait.Follows (cfg : Config) (cur : Nat) : Wait → Prop
  | .next newEpochId => cur ≠ cfg.epochIdMax ∧ newEpochId = cur + 2
  | .reset => cur = cfg.epochIdMax
  | .leave => cur = epochIdMin

theorem GpPc.between_of_opening {pc : GpPc} (h : pc.opening = some w) : pc.between = some w := by
  cases pc with
  | subscribe | loadSnapshot | scanFence => exact h
  | _ => cases h

namespace Delayed

variable {cfg : Config} {s s' : Delayed} {g : Performer} {t u : Tid}

-- ---------------------------------------------------------------------------
-- The performer's steps
-- ---------------------------------------------------------------------------

/-- Where the performer goes, and the epoch id that it stores. -/
inductive GpMove (cfg : Config) (s : Delayed) (g : Performer) : Option GpPc → Option Nat → Prop
  | loadEpoch {e} : g.pc = .loadEpoch → e = (s.mem.load g.runner .epoch).value →
      e ≠ cfg.epochIdMax → GpMove cfg s g (some (.storeNext e)) none
  | loadMax : g.pc = .loadEpoch → (s.mem.load g.runner .epoch).value = cfg.epochIdMax →
      GpMove cfg s g (some .storeReset) none
  | storeNext {orig e} : g.pc = .storeNext orig → e = cfg.nextEpochId orig →
      GpMove cfg s g (some (.subscribe (.next e))) (some e)
  | storeReset : g.pc = .storeReset → GpMove cfg s g (some (.subscribe .reset)) (some epochIdMin)
  | storeLeave : g.pc = .storeLeave →
      GpMove cfg s g (some (.subscribe .leave)) (some (epochIdMin + 2))
  | opening {w pc} : g.pc.opening = some w → pc.opening = some w → GpMove cfg s g (some pc) none
  | scanFence {w sub} : g.pc = .scanFence w sub → s.fenced g.runner →
      GpMove cfg s g (some (.beginScan w sub)) none
  | beginScan {w sub self} : g.pc = .beginScan w sub → s.slot g.runner = some self →
      GpMove cfg s g (some (.scan w sub self (s.mem.load g.runner .len).value 0)) none
  | panic {w sub} : g.pc = .beginScan w sub → s.slot g.runner = none →
      GpMove cfg s g (some (.dropFlag w sub .abandoned)) none
  | scanPass {w sub self len i} : g.pc = .scan w sub self len i → i < len →
      w.passes self i (s.mem.load g.runner (.slot i)).value = true →
      GpMove cfg s g (some (.scan w sub self len (i + 1))) none
  | scanFail {w sub self len i} : g.pc = .scan w sub self len i →
      GpMove cfg s g (some (.check w sub self)) none
  | scanEnd {w sub self len i} : g.pc = .scan w sub self len i → len ≤ i →
      GpMove cfg s g (some (.dropFlag w sub .passed)) none
  | between {w pc} : g.pc.between = some w → g.pc.opening = none → pc.between = some w →
      GpMove cfg s g (some pc) none
  | dropFlag {w sub d} : g.pc = .dropFlag w sub d → d ≠ .again →
      GpMove cfg s g (some (.dropInfo w sub d)) none
  | resetDone {sub} : g.pc = .dropInfo .reset sub .passed → GpMove cfg s g (some .storeLeave) none
  | finish {w sub} : g.pc = .dropInfo w sub .passed → w ≠ .reset →
      GpMove cfg s g (some .finished) none
  | abort {w sub} : g.pc = .dropInfo w sub .abandoned → GpMove cfg s g (some .aborted) none
  | done : g.pc = .finished ∨ g.pc = .aborted → GpMove cfg s g none none

/-- What a step of the performer leaves alone, with the epoch id that it stores. -/
structure GpFrame (s s' : Delayed) (g : Performer) (e : Option Nat) : Prop where
  place : s'.place = s.place
  slot : s'.slot = s.slot
  mem : ∀ l, l ≠ .hasSubscriber → (e.elim s.mem (s.mem.store g.runner .epoch)).Agree s'.mem l

theorem gpStep_move (hs : s.gpStep cfg g = some s') : ∃ pc e, GpMove cfg s g pc e ∧
    GpFrame s s' g e ∧ s'.gp = pc.map fun pc => { g with pc } := by
  have go {x : Delayed} {pc : GpPc} (hplace : x.place = s.place) (hslot : x.slot = s.slot)
      (hmem : ∀ l, l ≠ .hasSubscriber → s.mem.Agree x.mem l) (hm : GpMove cfg s g (some pc) none) :
      ∃ pc' e, GpMove cfg s g pc' e ∧ GpFrame s (x.gotoGp g pc) g e ∧
        (x.gotoGp g pc).gp = pc'.map fun pc => { g with pc } :=
    ⟨some pc, none, hm, ⟨hplace, hslot, hmem⟩, rfl⟩
  have same (l : Loc) (_ : l ≠ .hasSubscriber) : s.mem.Agree s.mem l := .refl _ _
  have flag (v : Nat) (l : Loc) (hl : l ≠ .hasSubscriber) :
      s.mem.Agree (s.mem.store g.runner .hasSubscriber v) l := Lib.Memory.store_agree hl
  have storeEpoch {e : Nat} {pc : GpPc} (hm : GpMove cfg s g (some pc) (some e)) :
      ∃ pc' e', GpMove cfg s g pc' e' ∧ GpFrame s ((s.storeEpoch g e).gotoGp g pc) g e' ∧
        ((s.storeEpoch g e).gotoGp g pc).gp = pc'.map fun pc => { g with pc } :=
    ⟨some pc, some e, hm, ⟨rfl, rfl, fun _ _ => .refl _ _⟩, rfl⟩
  have between {w : Wait} {x : Delayed} {pc : GpPc} (hplace : x.place = s.place)
      (hslot : x.slot = s.slot) (hmem : ∀ l, l ≠ .hasSubscriber → s.mem.Agree x.mem l)
      (hw : g.pc.between = some w) (ho : g.pc.opening = none) (hw' : pc.between = some w) :
      ∃ pc' e, GpMove cfg s g pc' e ∧ GpFrame s (x.gotoGp g pc) g e ∧
        (x.gotoGp g pc).gp = pc'.map fun pc => { g with pc } :=
    go hplace hslot hmem (.between hw ho hw')
  unfold gpStep at hs
  cases hpc : g.pc with
  | loadEpoch =>
    simp only [hpc] at hs
    cases hs
    split
    · rename_i he
      exact go rfl rfl same (.loadMax hpc he)
    · rename_i he
      exact go rfl rfl same (.loadEpoch hpc rfl he)
  | storeNext orig =>
    simp only [hpc] at hs
    cases hs
    exact storeEpoch (.storeNext hpc rfl)
  | storeReset =>
    simp only [hpc] at hs
    cases hs
    exact storeEpoch (.storeReset hpc)
  | storeLeave =>
    simp only [hpc] at hs
    cases hs
    exact storeEpoch (.storeLeave hpc)
  | subscribe w =>
    simp only [hpc] at hs
    cases hs
    exact go rfl rfl (flag 1) (.opening (w := w) (by rw [hpc]; rfl) rfl)
  | loadSnapshot w =>
    simp only [hpc] at hs
    cases hs
    exact go rfl rfl same (.opening (w := w) (by rw [hpc]; rfl) rfl)
  | scanFence w sub =>
    simp only [hpc] at hs
    obtain ⟨hq, hs⟩ := Option.ite_none_right_eq_some.mp hs
    cases hs
    exact go rfl rfl same (.scanFence hpc hq)
  | beginScan w sub =>
    simp only [hpc] at hs
    split at hs
    · rename_i self hself
      cases hs
      exact go rfl rfl same (.beginScan hpc hself)
    · rename_i hself
      cases hs
      exact go rfl rfl same (.panic hpc hself)
  | scan w sub self len i =>
    simp only [hpc] at hs
    split at hs
    · rename_i hi
      cases hs
      -- the scan notes what it reads, and nothing else
      obtain ⟨x, hx, hplace, hslot, hmem⟩ : ∃ x, (if !w.includeCallingThread && i == self then s
          else s.look i (s.mem.load g.runner (.slot i))) = x ∧ x.place = s.place ∧
            x.slot = s.slot ∧ x.mem = s.mem := by
        split <;> exact ⟨_, rfl, rfl, rfl, rfl⟩
      rw [hx]
      have hagree (l : Loc) (_ : l ≠ .hasSubscriber) : s.mem.Agree x.mem l := by
        rw [hmem]
        exact .refl _ _
      by_cases hp : w.passes self i (s.mem.load g.runner (.slot i)).value = true
      · rw [if_pos hp]
        exact go hplace hslot hagree (.scanPass hpc hi hp)
      · rw [if_neg hp]
        exact go hplace hslot hagree (.scanFail hpc)
    · rename_i hi
      cases hs
      exact go rfl rfl same (.scanEnd hpc (Nat.le_of_not_lt hi))
  | check w sub self =>
    simp only [hpc] at hs
    cases hs
    refine between (w := w) rfl rfl same (by rw [hpc]; rfl) (by rw [hpc]; rfl) ?_
    split
    · rfl
    · split <;> rfl
  | register w sub self =>
    simp only [hpc] at hs
    obtain ⟨-, hs⟩ := Option.ite_none_right_eq_some.mp hs
    cases hs
    exact between (w := w) (x := { s with subscriberInfo := _ }) rfl rfl same (by rw [hpc]; rfl)
      (by rw [hpc]; rfl) rfl
  | readRegistered w sub self =>
    simp only [hpc] at hs
    obtain ⟨-, hs⟩ := Option.ite_none_right_eq_some.mp hs
    split at hs
    · cases hs
      refine between (w := w) rfl rfl same (by rw [hpc]; rfl) (by rw [hpc]; rfl) ?_
      split <;> rfl
    · cases hs
      exact between (w := w) rfl rfl same (by rw [hpc]; rfl) (by rw [hpc]; rfl) rfl
  | updateRegistered w sub self tidGood wakerGood =>
    simp only [hpc] at hs
    obtain ⟨-, hs⟩ := Option.ite_none_right_eq_some.mp hs
    split at hs
    · cases hs
      exact between (w := w) (x := { s with subscriberInfo := _ }) rfl rfl same (by rw [hpc]; rfl)
        (by rw [hpc]; rfl) rfl
    · cases hs
      exact between (w := w) rfl rfl same (by rw [hpc]; rfl) (by rw [hpc]; rfl) rfl
  | recheck w sub self firstPoll =>
    simp only [hpc] at hs
    cases hs
    refine between (w := w) rfl rfl same (by rw [hpc]; rfl) (by rw [hpc]; rfl) ?_
    split <;> rfl
  | suspended => simp [hpc] at hs
  | dropFlag w sub d =>
    simp only [hpc] at hs
    cases hs
    have hmem (l : Loc) (hl : l ≠ .hasSubscriber) : s.mem.Agree (if sub.consumed then s
        else { s with mem := s.mem.store g.runner .hasSubscriber 0 }).mem l := by
      split
      · exact .refl _ _
      · exact flag 0 l hl
    have hplace : (if sub.consumed then s
        else { s with mem := s.mem.store g.runner .hasSubscriber 0 }).place = s.place := by
      split <;> rfl
    have hslot : (if sub.consumed then s
        else { s with mem := s.mem.store g.runner .hasSubscriber 0 }).slot = s.slot := by
      split <;> rfl
    cases d with
    | again => exact between (w := w) hplace hslot hmem (by rw [hpc]; rfl) (by rw [hpc]; rfl) rfl
    | passed | abandoned => exact go hplace hslot hmem (.dropFlag hpc fun hd => by cases hd)
  | dropInfo w sub d =>
    simp only [hpc] at hs
    obtain ⟨-, hs⟩ := Option.ite_none_left_eq_some.mp hs
    cases hs
    have hmem (l : Loc) (_ : l ≠ .hasSubscriber) : s.mem.Agree
        (if sub.hadAlreadyRegistered then { s with subscriberInfo := none } else s).mem l := by
      split <;> exact .refl _ _
    have hplace : (if sub.hadAlreadyRegistered then { s with subscriberInfo := none } else s).place =
        s.place := by
      split <;> rfl
    have hslot : (if sub.hadAlreadyRegistered then { s with subscriberInfo := none } else s).slot =
        s.slot := by
      split <;> rfl
    cases d with
    | again => exact between (w := w) hplace hslot hmem (by rw [hpc]; rfl) (by rw [hpc]; rfl) rfl
    | passed =>
      cases w with
      | reset => exact go hplace hslot hmem (.resetDone hpc)
      | next | leave => exact go hplace hslot hmem (.finish hpc fun hw => by cases hw)
    | abandoned => exact go hplace hslot hmem (.abort hpc)
  | finished | aborted =>
    simp only [hpc] at hs
    obtain ⟨-, hs⟩ := Option.ite_none_right_eq_some.mp hs
    cases hs
    exact ⟨none, none, .done (by simp [hpc]), ⟨rfl, rfl, same⟩, rfl⟩

-- ---------------------------------------------------------------------------
-- What a scan finds out
-- ---------------------------------------------------------------------------

variable {r : Reader} {ph : Phase} {ch : Option SlotId → Prop} {w : Wait} {sub : Subscriber}
  {self i : SlotId} {len : Nat}

theorem not_accepts_zero {cur : Stamp} (hcur : cfg.ValidEpochId cur.val) : ¬ ph.Accepts cur 0 := by
  have hpos : 0 < cur.val := Nat.lt_of_lt_of_le (by decide) hcur.min_le
  cases ph with
  | quiet | done => exact id
  | advanced => exact Nat.not_le_of_lt hpos
  | reset | left => exact Nat.ne_of_lt hpos

/-- A thread that owns a slot, and the write lock of the slots, is offline. -/
theorem Shows.passes_of_writer {m : Mem} {slot : Option SlotId} {p : Place} {cur : Stamp}
    (hr : Shows m t slot p r) (hw : ∀ {i}, slot = some i → ∃ next, p = .unlockTable next) :
    r.Passes ph cur := by
  cases hr with
  | away => exact .offline
  | online ho hi =>
    obtain ⟨next, rfl⟩ := hw hi
    rcases Place.online_cases ho with ⟨pc, hp, -⟩ | ⟨k, hk, hstop, -⟩
    · cases hp
    · cases next with
      | notifyFence k' =>
        cases k' with
        | stop => exact absurd (Option.some.inj hk).symm hstop
        | _ => cases hk
      | _ => cases hk
  | joining hp hi | joined hp hi | settling hp hi =>
    obtain ⟨next, rfl⟩ := hw hi
    cases hp
  | sampled hp hi =>
    obtain ⟨next, rfl⟩ := hw hi
    cases hp

theorem Shows.passes (h : s.Inv) (hcur : cfg.ValidEpochId s.cur.val) (hg : s.gp = some g)
    (hpc : g.pc = .scan w sub self len i) (hself : s.slot g.runner = some self)
    (hw : w.epochId = s.cur.val) (hi : s.slot t = some i)
    (hr : Shows s.mem t (s.slot t) (s.place t) r) (hv : ∀ st ∈ r.stamps, cfg.ValidEpochId st.val)
    (hp : w.passes self i (s.mem.load g.runner (.slot i)).value = true) :
    r.Passes w.phase s.cur := by
  have hh := h.table.owner hi
  have haccepts {e : Nat} (he : w.predicate e = true) : w.phase.Accepts s.cur e :=
    (Wait.predicate_iff hw).mp he
  have hzero : ¬ w.phase.Accepts s.cur 0 := not_accepts_zero hcur
  -- the thread that scans is in the middle of a poll
  have hrunner (hi' : i = self) : t = g.runner := h.table.unique (hi' ▸ hself) hi
  have huser (hi' : i = self) {pc : Pc} (hplace : s.place t = .run pc) : pc.atUser = true := by
    obtain ⟨pc', hpc', hu⟩ := h.places.user g hg (by rw [hpc]; rfl)
    rw [← hrunner hi', hplace] at hpc'
    cases hpc'
    exact hu
  have fetching (hall : s.mem.All t (.slot i) (· = busyFetching)) {pc : Pc}
      (hplace : s.place t = .run pc) (hu : pc.atUser = false) : w.phase.Accepts s.cur 0 := by
    rw [hall.load hh] at hp
    rcases Wait.passes_cases hp decode_busyFetching with ⟨-, hi'⟩ | hpr
    · cases hu.symm.trans (huser hi' hplace)
    · exact haccepts hpr
  have busy {seen : Stamp} (hvs : cfg.ValidEpochId seen.val) {v : Nat}
      (hpub : Published seen.val v) (hpv : w.passes self i v = true) :
      (w = .reset ∧ i = self) ∨ w.phase.Accepts s.cur seen.val := by
    rcases hpub with rfl | rfl
    · exact (Wait.passes_cases hpv decode_busyFetching).imp_right fun hpr =>
        absurd (haccepts hpr) hzero
    · exact (Wait.passes_cases hpv (decode_busyAt hvs.even)).imp_right haccepts
  cases hr with
  | away => exact .offline
  | joining hplace hi' hall =>
    cases hi.symm.trans hi'
    exact .fetching (.inl rfl) (fetching hall hplace rfl)
  | joined hplace hi' hall =>
    cases hi.symm.trans hi'
    exact .fetching (.inr ⟨_, rfl⟩) (fetching hall hplace rfl)
  | @online _ seen hplace hi' hall =>
    cases hi.symm.trans hi'
    rcases busy (hv seen List.mem_cons_self) (hall.load hh _) hp with ⟨rfl, -⟩ | ha
    · exact .skip rfl
    · exact .online ha
  | @sampled _ seen next hplace hi' hall =>
    cases hi.symm.trans hi'
    rcases busy (hv seen List.mem_cons_self) (hall.load hh _) hp with ⟨-, hi'⟩ | ha
    · generalize hpl : s.place t = p at hplace
      cases hplace <;> cases huser hi' hpl
    · exact .quiescing ha
  | @settling _ seen next cs c hplace hi' hq hc hshared hcs =>
    cases hi.symm.trans hi'
    have hne : g.runner ≠ t := by
      rintro rfl
      obtain ⟨pc', hpc', hu⟩ := h.places.user g hg (by rw [hpc]; rfl)
      rw [hplace] at hpc'
      cases hpc'
      cases hu
    rw [Lib.Memory.load_of_pending (hh.solo _ hne)] at hp
    rcases busy (hv seen List.mem_cons_self) hshared hp with ⟨-, hi'⟩ | ha
    · cases huser hi' hplace
    · exact .quiescing ha

-- ---------------------------------------------------------------------------
-- Where the grace period is for the others
-- ---------------------------------------------------------------------------

/-- The phase of the grace period, and the slots that the current wait has
found in order. An epoch id in the performer's queue does not count yet. -/
inductive Turn (cfg : Config) (s : Delayed) : Phase → (Option SlotId → Prop) → Prop
  | idle : s.gp = none → Turn cfg s .quiet fun _ => False
  | still {g : Performer} : s.gp = some g → s.mem.pending g.runner .epoch = [] →
      g.pc.EpochOk cfg s.cur.val → Turn cfg s g.pc.phase fun slot => g.pc.Checked slot
  | moving {g : Performer} {w : Wait} {c : Lib.Cell Nat} : s.gp = some g → s.mem.pending g.runner .epoch = [c] → g.pc.opening = some w →
      w.Follows cfg s.cur.val → c.value = w.epochId → Turn cfg s w.before fun _ => w = .leave

theorem Turn.congr (h : Turn cfg s ph ch) (hgp : s'.gp = s.gp) (ha : s.mem.Agree s'.mem .epoch) :
    Turn cfg s' ph ch := by
  have hcur : s'.cur = s.cur := by simp only [cur, ha.shared]
  cases h with
  | idle hg => exact .idle (hgp.trans hg)
  | still hg hp he => exact .still (hgp.trans hg) ((ha.pending _).trans hp) (hcur ▸ he)
  | moving hg hp ho hf hc =>
    exact .moving (hgp.trans hg) ((ha.pending _).trans hp) ho (hcur ▸ hf) hc

theorem Turn.still_cases (h : Turn cfg s ph ch) (hg : s.gp = some g) (ho : g.pc.opening = none) :
    s.mem.pending g.runner .epoch = [] ∧ g.pc.EpochOk cfg s.cur.val ∧ ph = g.pc.phase ∧
      ∀ slot, ch slot ↔ g.pc.Checked slot := by
  cases h with
  | idle hg' => cases hg.symm.trans hg'
  | still hg' hp he =>
    cases hg.symm.trans hg'
    exact ⟨hp, he, rfl, fun _ => .rfl⟩
  | moving hg' _ ho' =>
    cases hg.symm.trans hg'
    cases ho.symm.trans ho'

theorem GpFrame.cur {e : Option Nat} (hf : GpFrame s s' g e) : s'.cur = s.cur := by
  have hshared := (hf.mem .epoch fun he => by cases he).shared
  cases e <;> simp only [Delayed.cur, hshared] <;> rfl

/-- A step of the performer, as every thread sees it. -/
theorem gp_view {pc : Option GpPc} {e : Option Nat} (h : s.Inv) (hcur : cfg.ValidEpochId s.cur.val)
    (hg : s.gp = some g) (hself : ∀ w sub self len i, g.pc = .scan w sub self len i →
      s.slot g.runner = some self)
    (hpanic : ∀ w sub, g.pc = .beginScan w sub → s.slot g.runner ≠ none)
    (ht : Turn cfg s ph ch) (hm : GpMove cfg s g pc e) (hf : GpFrame s s' g e)
    (hgp : s'.gp = pc.map fun pc => { g with pc }) :
    ∃ ph' ch', Turn cfg s' ph' ch' ∧ ∀ t r k k', Shows s.mem t (s.slot t) (s.place t) r →
      (∀ st ∈ r.stamps, cfg.ValidEpochId st.val) → (k' → k) → (pc = none → ¬ k') →
      View.Step cfg (fun _ => False) ⟨r, s.cur, ph, ch (s.slot t), k⟩
        ⟨r, s'.cur, ph', ch' (s.slot t), k'⟩ := by
  have hcur' := hf.cur
  have hagree := hf.mem .epoch fun he => by cases he
  -- nothing is stored to the epoch id
  have still {pc' : GpPc} (hpc' : pc = some pc') (he : e = none)
      (hp : s.mem.pending g.runner .epoch = []) (hok : pc'.EpochOk cfg s.cur.val) :
      Turn cfg s' pc'.phase fun slot => pc'.Checked slot := by
    subst hpc' he
    exact .still hgp ((hagree.pending _).trans hp) (hcur' ▸ hok)
  have moving {pc' : GpPc} {v : Nat} {w : Wait} (hpc' : pc = some pc') (he : e = some v)
      (hp : s.mem.pending g.runner .epoch = []) (hw : pc'.opening = some w)
      (hfol : w.Follows cfg s.cur.val) (hv : v = w.epochId) :
      Turn cfg s' w.before fun _ => w = .leave := by
    subst hpc' he
    refine .moving (c := { value := v, no := s.mem.stores .epoch + 1 }) hgp
      ((hagree.pending _).trans ?_) hw (hcur' ▸ hfol) hv
    simp [hp]
  rw [hcur']
  cases hm with
  | @loadEpoch e hpc he hne =>
    obtain ⟨hp, -, rfl, hch⟩ := ht.still_cases hg (by rw [hpc]; rfl)
    rw [Lib.Memory.load_of_pending hp] at he
    refine ⟨_, _, still rfl rfl hp ⟨he, fun hm => hne (he.trans hm)⟩, fun t r k k' _ _ hk _ => ?_⟩
    exact .of_look rfl rfl (by rw [hpc]; rfl) (by rintro ⟨⟩) hk
  | loadMax hpc he =>
    obtain ⟨hp, -, rfl, hch⟩ := ht.still_cases hg (by rw [hpc]; rfl)
    rw [Lib.Memory.load_of_pending hp] at he
    refine ⟨_, _, still rfl rfl hp he, fun t r k k' _ _ hk _ => ?_⟩
    exact .of_look rfl rfl (by rw [hpc]; rfl) (by rintro ⟨⟩) hk
  | @storeNext orig e hpc he =>
    obtain ⟨hp, hok, rfl, hch⟩ := ht.still_cases hg (by rw [hpc]; rfl)
    rw [hpc] at hok
    obtain ⟨rfl, hne⟩ := hok
    rw [Config.nextEpochId_eq hcur hne] at he
    refine ⟨_, _, moving rfl rfl hp rfl ⟨hne, he⟩ rfl, fun t r k k' _ _ hk _ => ?_⟩
    exact .of_look rfl rfl (by rw [hpc]; rfl) (by rintro ⟨⟩) hk
  | storeReset hpc =>
    obtain ⟨hp, hok, rfl, hch⟩ := ht.still_cases hg (by rw [hpc]; rfl)
    rw [hpc] at hok
    refine ⟨_, _, moving rfl rfl hp rfl hok rfl, fun t r k k' _ _ hk _ => ?_⟩
    exact .of_look rfl rfl (by rw [hpc]; rfl) (by rintro ⟨⟩) hk
  | storeLeave hpc =>
    obtain ⟨hp, hok, rfl, hch⟩ := ht.still_cases hg (by rw [hpc]; rfl)
    rw [hpc] at hok
    refine ⟨_, _, moving rfl rfl hp rfl hok rfl, fun t r k k' _ _ hk _ => ?_⟩
    refine .of_look rfl rfl (by rw [hpc]; rfl) (fun _ => .inl ((hch _).mpr ?_)) hk
    rw [hpc]
    trivial
  | @opening w pc' hw hw' =>
    cases ht with
    | idle hg' => cases hg.symm.trans hg'
    | still hg' hp hok =>
      cases hg.symm.trans hg'
      have hb := GpPc.between_of_opening hw
      have hb' := GpPc.between_of_opening hw'
      refine ⟨_, _, still rfl rfl hp ?_, fun t r k k' _ _ hk _ => ?_⟩
      · exact (GpPc.epochOk_of_wait (GpPc.wait_of_between hb')).mpr
          ((GpPc.epochOk_of_wait (GpPc.wait_of_between hb)).mp hok)
      · refine .of_look rfl rfl ?_ (fun hc => absurd hc (GpPc.not_checked_of_between hb')) hk
        exact (GpPc.phase_of_between hb').trans (GpPc.phase_of_between hb).symm
    | moving hg' hp ho hfol hc =>
      cases hg.symm.trans hg'
      cases hw.symm.trans ho
      refine ⟨_, _, .moving hgp ((hagree.pending _).trans hp) hw' (hcur' ▸ hfol) hc,
        fun t r k k' _ _ hk _ => ?_⟩
      exact .of_look rfl rfl rfl .inl hk
  | @scanFence w sub hpc hq =>
    have hnil := Lib.Memory.pending_of_empty hq Loc.epoch
    cases ht with
    | idle hg' => cases hg.symm.trans hg'
    | still hg' hp hok =>
      cases hg.symm.trans hg'
      rw [hpc] at hok
      refine ⟨_, _, still rfl rfl hp ?_, fun t r k k' _ _ hk _ => ?_⟩
      · exact (GpPc.epochOk_of_wait rfl).mpr ((GpPc.epochOk_of_wait rfl).mp hok)
      · exact .of_look rfl rfl (by rw [hpc]; rfl) (by rintro ⟨⟩) hk
    | moving hg' hp =>
      cases hg.symm.trans hg'
      cases hnil.symm.trans hp
  | @beginScan w sub self hpc hs =>
    obtain ⟨hp, hok, rfl, hch⟩ := ht.still_cases hg (by rw [hpc]; rfl)
    rw [hpc] at hok
    refine ⟨_, _, still rfl rfl hp ?_, fun t r k k' hr _ hk _ => ?_⟩
    · exact (GpPc.epochOk_of_wait rfl).mpr ((GpPc.epochOk_of_wait rfl).mp hok)
    · refine .of_look rfl rfl (by rw [hpc]; rfl) (fun hc => .inr ?_) hk
      -- the scan looks at every slot whose thread has come out of `alloc`
      have hin {i : SlotId} (hi : s.slot t = some i) : s.tableWriter = some t := by
        obtain ⟨pc, hplace, -⟩ := h.places.user g hg (by rw [hpc]; rfl)
        refine (h.table.owned t i hi).2.resolve_right fun hlt => ?_
        have hlen := h.table.load_len_shared (h.not_tableWriter hplace)
        rcases hc i hi with hi' | hi'
        · exact Nat.not_lt_zero _ hi'
        · rw [hlen] at hi'
          exact Nat.not_le_of_lt hlt hi'
      exact hr.passes_of_writer (fun hi => h.places.table t (hin hi))
  | panic hpc hs => exact absurd hs (hpanic _ _ hpc)
  | @scanPass w sub self len i hpc hi hpass =>
    obtain ⟨hp, hok, rfl, hch⟩ := ht.still_cases hg (by rw [hpc]; rfl)
    have hw : w.epochId = s.cur.val := (GpPc.epochOk_of_wait (by rw [hpc]; rfl)).mp hok
    refine ⟨_, _, still rfl rfl hp ((GpPc.epochOk_of_wait rfl).mpr hw), fun t r k k' hr hv hk _ => ?_⟩
    refine .of_look rfl rfl (by rw [hpc]; rfl) (fun hc => ?_) hk
    by_cases hslot : s.slot t = some i
    · refine .inr ?_
      have hpasses := hr.passes h hcur hg hpc (hself _ _ _ _ _ hpc) hw hslot hv hpass
      rw [hpc]
      exact hpasses
    · refine .inl ((hch _).mpr ?_)
      rw [hpc]
      intro j hj
      have hji : j ≠ i := fun he => hslot (he ▸ hj)
      have hc : j < i + 1 ∨ len ≤ j := hc j hj
      omega
  | scanFail hpc =>
    obtain ⟨hp, hok, rfl, hch⟩ := ht.still_cases hg (by rw [hpc]; rfl)
    rw [hpc] at hok
    refine ⟨_, _, still rfl rfl hp ?_, fun t r k k' _ _ hk _ => ?_⟩
    · exact (GpPc.epochOk_of_wait rfl).mpr ((GpPc.epochOk_of_wait rfl).mp hok)
    · exact .of_look rfl rfl (by rw [hpc]; rfl) (by rintro ⟨⟩) hk
  | @scanEnd w sub self len i hpc hi =>
    obtain ⟨hp, hok, rfl, hch⟩ := ht.still_cases hg (by rw [hpc]; rfl)
    rw [hpc] at hok
    refine ⟨_, _, still rfl rfl hp ?_, fun t r k k' _ _ hk _ => ?_⟩
    · exact (GpPc.epochOk_of_wait rfl).mpr ((GpPc.epochOk_of_wait rfl).mp hok)
    · refine .of_look rfl rfl (by rw [hpc]; rfl) (fun _ => .inl ((hch _).mpr ?_)) hk
      rw [hpc]
      intro j _
      omega
  | @between w pc' hw ho hw' =>
    obtain ⟨hp, hok, rfl, hch⟩ := ht.still_cases hg ho
    refine ⟨_, _, still rfl rfl hp ?_, fun t r k k' _ _ hk _ => ?_⟩
    · exact (GpPc.epochOk_of_wait (GpPc.wait_of_between hw')).mpr
        ((GpPc.epochOk_of_wait (GpPc.wait_of_between hw)).mp hok)
    · refine .of_look rfl rfl ?_ (fun hc => absurd hc (GpPc.not_checked_of_between hw')) hk
      exact (GpPc.phase_of_between hw').trans (GpPc.phase_of_between hw).symm
  | @dropFlag w sub d hpc hd =>
    obtain ⟨hp, hok, rfl, hch⟩ := ht.still_cases hg (by rw [hpc]; rfl)
    rw [hpc] at hok hch
    refine ⟨_, _, still rfl rfl hp ?_, fun t r k k' _ _ hk _ => ?_⟩
    · exact (GpPc.epochOk_of_wait rfl).mpr ((GpPc.epochOk_of_wait rfl).mp hok)
    · refine .of_look rfl rfl (by rw [hpc]; cases d <;> rfl) (fun hc => .inl ((hch _).mpr ?_)) hk
      cases d with
      | again => exact absurd rfl hd
      | passed => trivial
      | abandoned => exact hc
  | resetDone hpc =>
    obtain ⟨hp, hok, rfl, hch⟩ := ht.still_cases hg (by rw [hpc]; rfl)
    rw [hpc] at hok hch
    have hmin : epochIdMin = s.cur.val := (GpPc.epochOk_of_wait (w := Wait.reset) rfl).mp hok
    refine ⟨_, _, still rfl rfl hp hmin.symm, fun t r k k' _ _ hk _ => ?_⟩
    exact .of_look rfl rfl (by rw [hpc]; rfl) (fun _ => .inl ((hch _).mpr trivial)) hk
  | @finish w sub hpc hw =>
    obtain ⟨hp, hok, rfl, hch⟩ := ht.still_cases hg (by rw [hpc]; rfl)
    rw [hpc] at hch
    refine ⟨_, _, still rfl rfl hp (by rintro _ ⟨⟩), fun t r k k' _ _ hk _ => ?_⟩
    refine .finish ?_ ((hch _).mpr trivial) hk
    rw [hpc]
    cases w with
    | next n => exact .inl rfl
    | reset => exact absurd rfl hw
    | leave => exact .inr rfl
  | abort hpc =>
    obtain ⟨hp, hok, rfl, hch⟩ := ht.still_cases hg (by rw [hpc]; rfl)
    refine ⟨_, _, still rfl rfl hp (by rintro _ ⟨⟩), fun t r k k' _ _ hk _ => ?_⟩
    exact .of_look rfl rfl (by rw [hpc]; rfl) (by rintro ⟨⟩) hk
  | done hpc =>
    obtain ⟨hp, hok, rfl, hch⟩ := ht.still_cases hg (by rcases hpc with hpc | hpc <;> rw [hpc] <;> rfl)
    refine ⟨_, _, .idle hgp, fun t r k k' _ _ hk hnone => ?_⟩
    rcases hpc with hpc | hpc
    · rw [hpc]
      exact .forget rfl (hnone rfl)
    · exact .of_look rfl rfl (by rw [hpc]; rfl) (by rintro ⟨⟩) hk

/-- The epoch id reaches the others. -/
theorem Turn.drain {m' : Mem} (ht : Turn cfg s ph ch) (h : s.Inv) (hcur : cfg.ValidEpochId s.cur.val)
    (hd : s.mem.drain u = some m') : s.mem.Agree m' .epoch ∨
      cfg.ValidEpochId (m'.shared .epoch).value ∧ (∀ i, s.mem.Agree m' (.slot i)) ∧
      ∃ ph' ch', Turn cfg { s with mem := m' } ph' ch' ∧ ∀ r slot k,
        View.Step cfg (fun _ => False) ⟨r, s.cur, ph, ch slot, k⟩
          ⟨r, Delayed.cur { s with mem := m' }, ph', ch' slot, k⟩ := by
  obtain ⟨l, c, hp, hshared, hstores, hloc, hother⟩ := Lib.Memory.drain_cases hd
  by_cases hl : l = .epoch
  · right
    subst hl
    -- only the performer has a store to the epoch id in its queue
    obtain ⟨v, hv, hwriting⟩ := h.epoch.held
    have huv : u = v := by
      by_contra hne
      rw [hv.solo u hne] at hp
      cases hp
    subst huv
    obtain ⟨g, hg, rfl, -⟩ := hwriting (by rw [hp]; exact List.cons_ne_nil _ _)
    cases ht with
    | idle hg' => cases hg.symm.trans hg'
    | still hg' hnil =>
      cases hg.symm.trans hg'
      cases hnil.symm.trans hp
    | @moving _ w c' hg' hp' ho hfol hc =>
      cases hg.symm.trans hg'
      obtain ⟨rfl, hnil⟩ := List.cons.inj (hp.symm.trans hp')
      have hno : c.no = s.cur.age + 1 := by
        have hn := hv.numbered
        rw [hp'] at hn
        exact hn.1
      have hcell : m'.shared .epoch = c := by rw [hshared, Function.update_self]
      have hcur' : Delayed.cur { s with mem := m' } = ⟨w.epochId, s.cur.age + 1⟩ := by
        simp only [Delayed.cur, hcell, hc, hno]
      have hslots (i : SlotId) : s.mem.Agree m' (.slot i) := by
        refine ⟨by rw [hshared, Function.update_of_ne fun he => by cases he], by rw [hstores], fun t => ?_⟩
        by_cases ht : t = g.runner
        · exact ht ▸ hloc _ fun he => by cases he
        · simp only [Lib.Memory.pending, hother t ht]
      have hb := GpPc.between_of_opening ho
      have hok : g.pc.EpochOk cfg (Delayed.cur { s with mem := m' }).val :=
        (GpPc.epochOk_of_wait (GpPc.wait_of_between hb)).mpr (by rw [hcur'])
      refine ⟨?_, hslots, _, _, .still hg hnil hok, fun r slot k => ?_⟩
      · rw [hcell, hc]
        cases w with
        | next n => exact hfol.2 ▸ hcur.next hfol.1
        | reset => exact cfg.validEpochId_min
        | leave => exact cfg.validEpochId_leave
      · have hnot : ¬ g.pc.Checked slot := GpPc.not_checked_of_between hb
        rw [hcur', GpPc.phase_of_between hb]
        cases w with
        | next n =>
          obtain ⟨hne, rfl⟩ := hfol
          exact .advance rfl hcur hne hnot id
        | reset => exact .reset rfl hfol hnot id
        | leave => exact .leave rfl rfl hnot id
  · left
    refine ⟨by rw [hshared, Function.update_of_ne (Ne.symm hl)], by rw [hstores], fun t => ?_⟩
    by_cases ht : t = u
    · exact ht ▸ hloc _ (Ne.symm hl)
    · simp only [Lib.Memory.pending, hother t ht]

/-- A thread that gets a slot is in order only if it was without one. -/
theorem Turn.of_slot {slot slot' : Option SlotId} (ht : Turn cfg s ph ch) (hc : ch slot')
    (hs : slot' = slot ∨ slot = none) : ch slot := by
  cases ht with
  | idle => exact hc
  | still => exact GpPc.Checked.of_slot hc hs
  | moving => exact hc

end Delayed

-- ---------------------------------------------------------------------------
-- Every step
-- ---------------------------------------------------------------------------

namespace DelayedSections

variable {cfg : Config} {s s' : DelayedSections} {t u : Tid} {ph : Phase}
  {ch : Option SlotId → Prop} {r : Reader}

/-- The thread is in a read section that is older than the grace period. -/
def held (s : DelayedSections) (t : Tid) : Prop :=
  s.delayed.gp ≠ none ∧ ∃ o ∈ s.sections t, o < s.since

structure Tracks (cfg : Config) (s : DelayedSections) (ph : Phase) (ch : Option SlotId → Prop)
    (t : Tid) (r : Reader) : Prop where
  shows : Delayed.Shows s.delayed.mem t (s.delayed.slot t) (s.delayed.place t) r
  valid : ∀ st ∈ r.stamps, cfg.ValidEpochId st.val
  fresh : View.Fresh cfg ⟨r, s.delayed.cur, ph, ch (s.delayed.slot t), s.held t⟩

structure Inv (cfg : Config) (s : DelayedSections) : Prop where
  handshakes : s.delayed.Inv
  epoch : cfg.ValidEpochId s.delayed.cur.val
  scan : ∀ g, s.delayed.gp = some g → ∀ w sub self len i, g.pc = .scan w sub self len i →
    s.delayed.slot g.runner = some self
  sections : ∀ t, s.sections t = [] ∨ s.delayed.place t = .run .polling
  since : s.since ≤ s.clock
  views : ∃ ph ch, Delayed.Turn cfg s.delayed ph ch ∧ ∀ t, ∃ r, s.Tracks cfg ph ch t r

theorem not_held_of_nil (h : s.sections t = []) : ¬ s.held t := by
  rintro ⟨-, o, ho, -⟩
  rw [h] at ho
  cases ho

theorem Inv.hook {d : Delayed} (h : s.Inv cfg) (hs : s.delayed.hookStep u = some d) :
    Inv cfg { s with delayed := d } := by
  obtain ⟨ph, ch, hturn, hviews⟩ := h.views
  have hsec : s.sections u = [] := (h.sections u).resolve_right fun hp =>
    Delayed.not_hookStep_of_user hp rfl hs
  obtain ⟨r, hr⟩ := hviews u
  obtain ⟨hf, r', hstep, hr', hslot⟩ := hr.shows.hook h.handshakes hr.valid hs
  have hcur : d.cur = s.delayed.cur := by simp only [Delayed.cur, hf.epoch.shared]
  refine ⟨h.handshakes.hook hs, hcur ▸ h.epoch, fun g hg w sub self len i hpc => ?_, fun t => ?_,
    h.since, ph, ch, hturn.congr hf.gp hf.epoch, fun t => ?_⟩
  · have hg : s.delayed.gp = some g := hf.gp ▸ hg
    have hne := h.handshakes.free_of_hook hs g hg (by rw [hpc]; rfl)
    exact (hf.slot _ hne).trans (h.scan g hg w sub self len i hpc)
  · by_cases ht : t = u
    · exact .inl (ht ▸ hsec)
    · exact (h.sections t).imp_right (hf.place t ht).trans
  · by_cases ht : t = u
    · subst ht
      refine ⟨r', hr', fun st hst => ?_, ?_⟩
      · exact (hstep.stamps st hst).elim (hr.valid st) fun he => he ▸ h.epoch
      · show View.Fresh cfg ⟨r', d.cur, ph, ch (d.slot t), _⟩
        rw [hcur]
        refine hr.fresh.step (.move hstep (fun hc => ?_) (not_held_of_nil hsec) (not_held_of_nil hsec))
        rcases hslot with hslot | hslot | hslot
        · exact .inl (hturn.of_slot hc (.inl hslot))
        · exact .inl (hturn.of_slot hc (.inr hslot))
        · exact .inr hslot
    · obtain ⟨r, hr⟩ := hviews t
      refine ⟨r, ?_, hr.valid, ?_⟩
      · show Delayed.Shows d.mem t (d.slot t) (d.place t) r
        rw [hf.slot t ht, hf.place t ht]
        exact hr.shows.congr fun i hi => hf.mem t ht i hi
      · show View.Fresh cfg ⟨r, d.cur, ph, ch (d.slot t), d.gp ≠ none ∧ _⟩
        rw [hcur, hf.slot t ht, hf.gp]
        exact hr.fresh

theorem Inv.drain {m' : Mem} (h : s.Inv cfg) (hd : s.delayed.mem.drain u = some m') :
    Inv cfg { s with delayed := { s.delayed with mem := m' } } := by
  obtain ⟨ph, ch, hturn, hviews⟩ := h.views
  have hheld (t : Tid) (i : SlotId) (hi : s.delayed.slot t = some i) :
      s.delayed.mem.Held t (.slot i) := h.handshakes.table.owner hi
  rcases hturn.drain h.handshakes h.epoch hd with ha | ⟨hvalid, hslots, ph', ch', hturn', hstep⟩
  · -- the epoch id stays, and one thread may come to show its new state
    have hcur : Delayed.cur { s.delayed with mem := m' } = s.delayed.cur := by
      simp only [Delayed.cur, ha.shared]
    refine ⟨h.handshakes.drain hd, hcur ▸ h.epoch, h.scan, h.sections, h.since, ph, ch,
      hturn.congr rfl ha, fun t => ?_⟩
    obtain ⟨r, hr⟩ := hviews t
    rcases hr.shows.drain s.delayed.cur hd (hheld t) with hr' | ⟨hplace, r', hstep, hr'⟩
    · refine ⟨r, hr', hr.valid, ?_⟩
      show View.Fresh cfg ⟨r, Delayed.cur { s.delayed with mem := m' }, ph, _, _⟩
      rw [hcur]
      exact hr.fresh
    · have hsec : s.sections t = [] := (h.sections t).resolve_right fun hp => by
        cases hplace.symm.trans hp
      refine ⟨r', hr', fun st hst => ?_, ?_⟩
      · exact (hstep.stamps st hst).elim (hr.valid st) fun he => he ▸ h.epoch
      · show View.Fresh cfg ⟨r', Delayed.cur { s.delayed with mem := m' }, ph, _, _⟩
        rw [hcur]
        exact hr.fresh.step (.move hstep .inl (not_held_of_nil hsec) (not_held_of_nil hsec))
  · refine ⟨h.handshakes.drain hd, hvalid, h.scan, h.sections, h.since, ph', ch', hturn', fun t => ?_⟩
    obtain ⟨r, hr⟩ := hviews t
    exact ⟨r, hr.shows.congr fun i _ => hslots i, hr.valid, hr.fresh.step (hstep r _ _)⟩

theorem Inv.gp {g : Performer} {d : Delayed} (h : s.Inv cfg) (hg : s.delayed.gp = some g)
    (hpanic : s.delayed.panics = false) (hs : s.delayed.gpStep cfg g = some d) :
    Inv cfg { s with delayed := d } := by
  obtain ⟨ph, ch, hturn, hviews⟩ := h.views
  obtain ⟨pc, e, hm, hf, hgp⟩ := Delayed.gpStep_move hs
  have hnopanic (w : Wait) (sub : Subscriber) (hpc : g.pc = .beginScan w sub) :
      s.delayed.slot g.runner ≠ none := by
    intro hnone
    obtain ⟨gpc, runner, waker⟩ := g
    cases hpc
    simp [Delayed.panics, hg, hnone] at hpanic
  obtain ⟨ph', ch', hturn', hstep⟩ := Delayed.gp_view h.handshakes h.epoch hg
    (h.scan g hg) hnopanic hturn hm hf hgp
  refine ⟨h.handshakes.gp hg hs, hf.cur ▸ h.epoch, fun g' hg' w sub self len i hpc => ?_,
    fun t => ?_, h.since, ph', ch', hturn', fun t => ?_⟩
  · obtain ⟨pc', rfl, rfl⟩ := Option.map_eq_some_iff.mp (hgp.symm.trans hg')
    have hself : s.delayed.slot g.runner = some self := by
      cases hm with
      | beginScan _ hself =>
        cases hpc
        exact hself
      | scanPass hpc' =>
        cases hpc
        exact h.scan g hg _ _ _ _ _ hpc'
      | opening _ hw | between _ _ hw =>
        dsimp only at hpc
        rw [hpc] at hw
        cases hw
      | _ => cases hpc
    show d.slot g.runner = some self
    rw [hf.slot]
    exact hself
  · exact (h.sections t).imp_right fun hp => by rw [hf.place]; exact hp
  · obtain ⟨r, hr⟩ := hviews t
    refine ⟨r, ?_, hr.valid, ?_⟩
    · show Delayed.Shows d.mem t (d.slot t) (d.place t) r
      rw [hf.slot, hf.place]
      refine hr.shows.congr fun i _ => ?_
      have hagree := hf.mem (.slot i) fun he => by cases he
      cases e with
      | none => exact hagree
      | some e => exact (Lib.Memory.store_agree fun he => by cases he).trans hagree
    · show View.Fresh cfg ⟨r, d.cur, ph', ch' (d.slot t), d.gp ≠ none ∧ _⟩
      rw [hf.slot]
      refine hr.fresh.step (hstep t r _ _ hr.shows hr.valid ?_ ?_)
      · rintro ⟨-, ho⟩
        exact ⟨by simp [hg], ho⟩
      · rintro rfl ⟨hne, -⟩
        exact hne hgp

/-- A thread between its hooks goes on to `pc`. -/
theorem Inv.goto {pc : Pc} (h : s.Inv cfg) (hinv : (s.delayed.goto u pc).Inv)
    (hshows : ∀ r, Delayed.Shows s.delayed.mem u (s.delayed.slot u) (s.delayed.place u) r →
      Delayed.Shows s.delayed.mem u (s.delayed.slot u) (.run pc) r)
    (hsec : s.sections u = [] ∨ pc = .polling) :
    Inv cfg { s with delayed := s.delayed.goto u pc } := by
  obtain ⟨ph, ch, hturn, hviews⟩ := h.views
  refine ⟨hinv, h.epoch, h.scan, fun t => ?_, h.since, ph, ch, hturn.congr rfl (.refl _ _), fun t => ?_⟩
  · by_cases ht : t = u
    · subst ht
      refine hsec.imp_right fun hpc => ?_
      rw [hpc]
      exact Function.update_self ..
    · exact (h.sections t).imp_right fun hp => (Function.update_of_ne ht ..).trans hp
  · obtain ⟨r, hr⟩ := hviews t
    refine ⟨r, ?_, hr.valid, hr.fresh⟩
    by_cases ht : t = u
    · subst ht
      show Delayed.Shows s.delayed.mem t (s.delayed.slot t) (Function.update s.delayed.place t _ t) r
      rw [Function.update_self]
      exact hshows r hr.shows
    · show Delayed.Shows s.delayed.mem t (s.delayed.slot t) (Function.update s.delayed.place u _ t) r
      rw [Function.update_of_ne ht]
      exact hr.shows

theorem Inv.call {k : Hook} (h : s.Inv cfg) (hf : s.delayed.free u = true)
    (ho : s.Orderly (.delayed (.call u k))) : Inv cfg { s with delayed := s.delayed.callHook u k } := by
  have hinv := h.handshakes.call hf k
  have idle (hplace : s.delayed.place u = .run .idle) : s.sections u = [] :=
    (h.sections u).resolve_right fun hp => by cases hplace.symm.trans hp
  -- a thread without a slot goes to `pc₀`, one with a slot goes on to `pc₁`
  have branch {pc₀ pc₁ : Pc} (hplace : s.delayed.place u = .run .idle)
      (h₀ : Delayed.Away s.delayed.mem u none (.run pc₀)) (h₁ : (Place.run pc₁).online = true)
      (hinv : (s.delayed.goto u (if (s.delayed.slot u).isSome then pc₁ else pc₀)).Inv) :
      Inv cfg { s with
        delayed := s.delayed.goto u (if (s.delayed.slot u).isSome then pc₁ else pc₀) } := by
    refine h.goto hinv (fun r hr => ?_) (.inl (idle hplace))
    rw [hplace] at hr
    rcases hr.user_cases rfl with ⟨rfl, ha⟩ | ⟨i, seen, rfl, hi, hall, -⟩
    · rw [ha.slot_none]
      exact .away h₀
    · rw [hi]
      exact .online h₁ rfl hall
  cases k with
  | stop => exact branch ho .idle rfl hinv
  | park => exact branch ho .parked rfl hinv
  | beforePoll => exact branch ho .alloc rfl hinv
  | unpark =>
    have hplace : s.delayed.place u = .run .parked := ho
    refine h.goto hinv (fun r hr => ?_)
      (.inl ((h.sections u).resolve_right fun hp => by cases hplace.symm.trans hp))
    rw [hplace] at hr
    rcases hr.user_cases rfl with ⟨rfl, -⟩ | ⟨-, -, -, -, -, hon⟩
    · cases s.delayed.slot u with
      | none => exact .away .idle
      | some i => exact .away .markBusy
    · cases hon
  | afterPoll =>
    obtain ⟨hplace, hsec⟩ : s.delayed.place u = .run .polling ∧ s.sections u = [] := ho
    refine h.goto hinv (fun r hr => ?_) (.inl hsec)
    rw [hplace] at hr
    rcases hr.user_cases rfl with ⟨-, ha⟩ | ⟨i, seen, rfl, hi, hall, -⟩
    · exact absurd ha Delayed.Away.not_polling
    · exact .online rfl hi hall

/-- A thread with an open section has published an epoch id. -/
theorem Tracks.online_of_section {o : Nat} (h : s.Inv cfg) (hr : s.Tracks cfg ph ch t r)
    (ho : o ∈ s.sections t) : ∃ seen, r = .online seen := by
  have hplace : s.delayed.place t = .run .polling := (h.sections t).resolve_left fun hnil => by
    rw [hnil] at ho
    cases ho
  have hshows := hr.shows
  rw [hplace] at hshows
  rcases hshows.user_cases rfl with ⟨-, ha⟩ | ⟨i, seen, rfl, -⟩
  · exact absurd ha Delayed.Away.not_polling
  · exact ⟨seen, rfl⟩

theorem Inv.begin {d : Delayed} {waker : Waker} (h : s.Inv cfg) (hf : s.delayed.free u = true)
    (hs : s.delayed.beginGp u waker = some d) :
    Inv cfg { s with delayed := d, since := s.clock } := by
  have hinv := h.handshakes.begin hf hs
  obtain ⟨ph, ch, hturn, hviews⟩ := h.views
  unfold Delayed.beginGp at hs
  split at hs
  · rename_i hnone
    obtain ⟨hq, hs⟩ := Option.ite_none_right_eq_some.mp hs
    cases hs
    cases hturn with
    | still hg | moving hg => cases hnone.symm.trans hg
    | idle =>
      refine ⟨hinv, h.epoch, ?_, h.sections, Nat.le_refl _, _, _,
        .still rfl (Lib.Memory.pending_of_empty hq _) (by rintro _ ⟨⟩), fun t => ?_⟩
      · rintro _ ⟨⟩ w sub self len i ⟨⟩
      · obtain ⟨r, hr⟩ := hviews t
        refine ⟨r, hr.shows, hr.valid, hr.fresh.step (.begin rfl ?_)⟩
        rintro ⟨-, o, ho, -⟩
        exact hr.online_of_section h ho
  · cases hs

theorem Inv.poll {d : Delayed} {waker : Waker} (h : s.Inv cfg) (hf : s.delayed.free u = true)
    (hs : s.delayed.pollGp u waker = some d) : Inv cfg { s with delayed := d } := by
  have hinv := h.handshakes.poll hf hs
  obtain ⟨ph, ch, hturn, hviews⟩ := h.views
  obtain ⟨g, hg, hs⟩ := Option.bind_eq_some_iff.mp hs
  split at hs
  · rename_i w sub self hpc
    obtain ⟨-, hs⟩ := Option.ite_none_right_eq_some.mp hs
    cases hs
    obtain ⟨-, hok, rfl, hch⟩ := hturn.still_cases hg (by rw [hpc]; rfl)
    rw [hpc] at hok
    have hnil := h.handshakes.pending_epoch (Delayed.free_cases hf).2
    refine ⟨hinv, h.epoch, ?_, h.sections, h.since, _, _,
      .still rfl hnil ((GpPc.epochOk_of_wait rfl).mpr ((GpPc.epochOk_of_wait rfl).mp hok)), fun t => ?_⟩
    · rintro _ ⟨⟩ w sub self len i ⟨⟩
    · obtain ⟨r, hr⟩ := hviews t
      refine ⟨r, hr.shows, hr.valid, hr.fresh.step (.of_look rfl rfl (by rw [hpc]; rfl) ?_ ?_)⟩
      · rintro ⟨⟩
      · rintro ⟨-, ho⟩
        exact ⟨by simp [hg], ho⟩
  · cases hs

/-- Sections come and go between the hooks; a new one is younger than the grace period. -/
theorem Inv.sections_update {l : List Nat} (h : s.Inv cfg) (hplace : s.delayed.place u = .run .polling)
    (hl : ∀ o ∈ l, o ∈ s.sections u ∨ s.clock ≤ o) :
    Inv cfg { s with sections := Function.update s.sections u l } := by
  obtain ⟨ph, ch, hturn, hviews⟩ := h.views
  refine ⟨h.handshakes, h.epoch, h.scan, fun t => ?_, h.since, ph, ch, hturn, fun t => ?_⟩
  · by_cases ht : t = u
    · exact .inr (ht ▸ hplace)
    · exact (h.sections t).imp_left fun hnil => (Function.update_of_ne ht ..).trans hnil
  · obtain ⟨r, hr⟩ := hviews t
    refine ⟨r, hr.shows, hr.valid, hr.fresh.step (.of_look rfl rfl rfl .inl ?_)⟩
    rintro ⟨hg, o, ho, hlt⟩
    refine ⟨hg, o, ?_, hlt⟩
    by_cases ht : t = u
    · subst ht
      dsimp only at ho
      rw [Function.update_self] at ho
      exact (hl o ho).resolve_right fun hle => Nat.not_lt_of_le (Nat.le_trans h.since hle) hlt
    · dsimp only at ho
      rwa [Function.update_of_ne ht] at ho

theorem Inv.tick (h : s.Inv cfg) : Inv cfg { s with clock := s.clock + 1 } := by
  obtain ⟨ph, ch, hturn, hviews⟩ := h.views
  refine ⟨h.handshakes, h.epoch, h.scan, h.sections, Nat.le_succ_of_le h.since, ph, ch, hturn,
    fun t => ?_⟩
  obtain ⟨r, hr⟩ := hviews t
  exact ⟨r, hr.shows, hr.valid, hr.fresh⟩

theorem inv_initial {epoch : Nat} (h : cfg.ValidEpochId epoch) : (initial epoch).Inv cfg := by
  refine ⟨Delayed.inv_initial epoch, h, ?_, fun _ => .inl rfl, Nat.le_refl _, _, _, .idle rfl,
    fun t => ⟨.offline, .away .idle, ?_, ?_⟩⟩
  · rintro g ⟨⟩
  · intro st hst
    cases hst
  · have hpos : 0 < epoch := Nat.lt_of_lt_of_le (by decide) h.min_le
    refine ⟨hpos, ?_, ?_, ?_, ?_⟩
    · intro st hst
      cases hst
    · rintro seen next ⟨⟩
    · rintro (hq | hq) <;> cases hq
    · intro hheld
      exact absurd hheld (not_held_of_nil rfl)

theorem inv_inductive : (delayedSections cfg).Inductive Orderly (Inv cfg) where
  init := by
    rintro _ ⟨epoch, h, rfl⟩
    exact inv_initial h
  step s a s' h ho hs := by
    obtain ⟨s₁, ha, rfl⟩ := Option.map_eq_some_iff.mp hs
    refine Inv.tick ?_
    cases a with
    | openSection t =>
      obtain ⟨-, ha⟩ := Option.ite_none_right_eq_some.mp ha
      cases ha
      refine h.sections_update ho fun o ho => ?_
      rcases List.mem_cons.mp ho with rfl | ho
      · exact .inr (Nat.le_refl _)
      · exact .inl ho
    | closeSection t =>
      obtain ⟨-, ha⟩ := Option.ite_none_right_eq_some.mp ha
      split at ha
      · rename_i o rest hrest
        cases ha
        exact h.sections_update ho fun o' ho' => .inl (hrest ▸ List.mem_cons_of_mem _ ho')
      · cases ha
    | delayed a =>
      obtain ⟨d, hd, rfl⟩ := Option.map_eq_some_iff.mp ha
      cases a with
      | hook t => exact h.hook hd
      | gp =>
        obtain ⟨g, hg, hd⟩ := Option.bind_eq_some_iff.mp hd
        exact h.gp hg ho hd
      | drain t =>
        obtain ⟨m, hm, rfl⟩ := Option.map_eq_some_iff.mp hd
        exact h.drain hm
      | call t k =>
        obtain ⟨hf, hd⟩ := Option.ite_none_right_eq_some.mp hd
        cases hd
        exact h.call hf ho
      | begin t w =>
        obtain ⟨hf, hd⟩ := Option.ite_none_right_eq_some.mp hd
        exact h.begin hf hd
      | poll t w =>
        obtain ⟨hf, hd⟩ := Option.ite_none_right_eq_some.mp hd
        exact h.poll hf hd
      | abandon => exact ho.elim

/-- A grace period that is done has outlived the sections it found open,
although scans and hooks read each other's stores late. -/
theorem Inv.since_le (h : s.Inv cfg) {g : Performer} (hg : s.delayed.gp = some g)
    (hpc : g.pc = .finished) (t : Tid) : ∀ o ∈ s.sections t, s.since ≤ o := by
  intro o ho
  obtain ⟨ph, ch, hturn, hviews⟩ := h.views
  obtain ⟨-, -, rfl, -⟩ := hturn.still_cases hg (by rw [hpc]; rfl)
  obtain ⟨r, hr⟩ := hviews t
  by_contra hlt
  obtain ⟨seen, -, hq | ⟨hd, -⟩⟩ :=
    hr.fresh.held ⟨by simp [hg], o, ho, Nat.lt_of_not_le hlt⟩
  · rw [hpc] at hq
    cases hq
  · exact hd (by rw [hpc]; rfl)

theorem Inv.not_panicked (h : s.Inv cfg) (t : Tid) : s.delayed.place t ≠ .run .panicked := by
  intro hp
  obtain ⟨ph, ch, -, hviews⟩ := h.views
  obtain ⟨r, hr⟩ := hviews t
  have hshows := hr.shows
  rw [hp] at hshows
  cases hshows with
  | away ha =>
    generalize s.delayed.slot t = slot at ha
    cases ha with
    | entering he => cases he
    | stop hn | park hn => cases hn
  | online ho => cases ho
  | joining hp' | joined hp' | settling hp' => cases hp'
  | sampled hs => cases hs

end DelayedSections
end TokioRcu
