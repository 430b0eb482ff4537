import TokioRcu.System

/-!
# What a step can do

`HookMove`, `GpMove` and `Move` list everything a step of the machine can do,
with the guards it passed. The steps of `thread_epoch_updated_notify_inner`
are one case, `notify`: they leave the slots, the epoch id and every other
thread alone, and the invariants of the epoch book-keeping need no more.
-/

namespace TokioRcu

/-- The hook whose notify call, or the fence before it, the thread is in. -/
def Pc.notifying : Pc → Option Hook
  | .notifyFence h | .loadHasSubscriber h | .incNotifications h | .readInfo h | .takeInfo h
  | .clearHasSubscriber h => some h
  | _ => none

/-- The next access is to the thread's own slot. -/
def Pc.needsSlot : Pc → Bool
  | .dealloc | .clearBusy | .markBusy | .publish _ _ | .seeNewEpoch | .loadPrev _
  | .storeSeen _ _ => true
  | _ => false

/-- What the book-keeping of epochs reads of the performer. -/
def Gp.place (g : Gp) : GpPc × Option Tid × Nat := (g.pc, g.runner, g.since)

/-- Waiting for `w`, outside of a scan and with no verdict of one: from the
subscription to the next scan, or to the end of the subscription. -/
def GpPc.between : GpPc → Option Wait
  | .subscribe w | .loadSnapshot w | .scanFence w _ | .beginScan w _ | .check w _ _
  | .register w _ _ | .readRegistered w _ _ | .updateRegistered w _ _ _ _ | .recheck w _ _ _
  | .suspended w _ _ | .dropFlag w _ .again | .dropInfo w _ .again => some w
  | _ => none

namespace Core

/-- The two states differ at most in thread `t`'s program counter and in the notifications. -/
structure NotifyFrame (s s' : Core) (t : Tid) (pc : Pc) : Prop where
  threads : s'.threads = (s.goto t pc).threads
  slots : s'.slots = s.slots
  len : s'.len = s.len
  freeSlots : s'.freeSlots = s.freeSlots
  curEpochId : s'.curEpochId = s.curEpochId
  place : s'.gp.map Gp.place = s.gp.map Gp.place
  clock : s'.clock = s.clock

inductive HookMove (s : Core) (t : Tid) : Core → Prop
  | dealloc {i} : (s.threads t).pc = .dealloc → (s.threads t).slot = some i →
      HookMove s t (s.deallocSlot t i (.notifyFence .stop))
  | clearBusy {i} : (s.threads t).pc = .clearBusy → (s.threads t).slot = some i →
      HookMove s t ((s.storeState i (TokioRcu.clearBusy (s.slots i))).goto t (.notifyFence .park))
  | markBusy {i} : (s.threads t).pc = .markBusy → (s.threads t).slot = some i →
      HookMove s t ((s.storeState i busyFetching).goto t (.entryFence .unpark))
  | alloc : (s.threads t).pc = .alloc →
      HookMove s t (s.allocSlot t busyFetching (.entryFence .beforePoll))
  | entryFence {w} : (s.threads t).pc = .entryFence w → HookMove s t (s.goto t (.seeEpoch w))
  | seeEpoch {w} : (s.threads t).pc = .seeEpoch w →
      HookMove s t (s.goto t (.publish w s.curEpochId))
  | publish {w e i} : (s.threads t).pc = .publish w e → (s.threads t).slot = some i →
      HookMove s t ((s.storeState i (busyAt e)).goto t (.notifyFence w.hook))
  | seeNewEpoch {i} : (s.threads t).pc = .seeNewEpoch → (s.threads t).slot = some i →
      HookMove s t (s.goto t (.loadPrev s.curEpochId))
  | loadPrev {e i} : (s.threads t).pc = .loadPrev e → (s.threads t).slot = some i →
      HookMove s t (s.goto t (.storeSeen e (s.slots i)))
  | storeSeen {e prev i pc} : (s.threads t).pc = .storeSeen e prev → (s.threads t).slot = some i →
      pc = (match ThreadState.decode prev with
        | some ⟨seen, true⟩ => if seen = e then .idle else .notifyFence .afterPoll
        | _ => .panicked) →
      HookMove s t ((s.storeState i (busyAt e)).goto t pc)
  | panic : (s.threads t).pc.needsSlot = true → (s.threads t).slot = none →
      HookMove s t (s.goto t .panicked)
  | notify {h pc s'} : (s.threads t).pc.notifying = some h →
      pc = h.ret ∨ pc.notifying = some h → NotifyFrame s s' t pc → HookMove s t s'

theorem hookStep_move {s s' : Core} {t : Tid} (h : s.hookStep t = some s') : HookMove s t s' := by
  -- the accesses that first look up the thread's slot
  have slotCases {f : SlotId → Core} {pc : Pc} (hpc : (s.threads t).pc = pc)
      (hn : pc.needsSlot = true) (hf : s.withSlot t f = s')
      (hm : ∀ i, (s.threads t).slot = some i → HookMove s t (f i)) : HookMove s t s' := by
    subst hf hpc
    unfold withSlot
    cases hs : (s.threads t).slot with
    | some i => exact hm i hs
    | none => exact .panic hn hs
  unfold hookStep at h
  cases hpc : (s.threads t).pc <;> simp only [hpc, Option.some.injEq, reduceCtorEq] at h
  case dealloc => exact slotCases hpc rfl h fun _ hi => .dealloc hpc hi
  case clearBusy => exact slotCases hpc rfl h fun _ hi => .clearBusy hpc hi
  case markBusy => exact slotCases hpc rfl h fun _ hi => .markBusy hpc hi
  case alloc => exact h ▸ .alloc hpc
  case entryFence w => exact h ▸ .entryFence hpc
  case seeEpoch w => exact h ▸ .seeEpoch hpc
  case publish w e => exact slotCases hpc rfl h fun _ hi => .publish hpc hi
  case seeNewEpoch => exact slotCases hpc rfl h fun _ hi => .seeNewEpoch hpc hi
  case loadPrev e => exact slotCases hpc rfl h fun _ hi => .loadPrev hpc hi
  case storeSeen e prev => exact slotCases hpc rfl h fun _ hi => .storeSeen hpc hi rfl
  case notifyFence k =>
    have hf : NotifyFrame s s' t (.loadHasSubscriber k) := h ▸ ⟨rfl, rfl, rfl, rfl, rfl, rfl, rfl⟩
    exact .notify (by rw [hpc]; rfl) (.inr rfl) hf
  case loadHasSubscriber k =>
    have hf : NotifyFrame s s' t (if s.hasSubscriber then .incNotifications k else k.ret) :=
      h ▸ ⟨rfl, rfl, rfl, rfl, rfl, rfl, rfl⟩
    refine .notify (h := k) (by rw [hpc]; rfl) ?_ hf
    split
    · exact .inr rfl
    · exact .inl rfl
  case incNotifications k =>
    have hf : NotifyFrame s s' t (.readInfo k) := h ▸ ⟨rfl, rfl, rfl, rfl, rfl, rfl, rfl⟩
    exact .notify (by rw [hpc]; rfl) (.inr rfl) hf
  case readInfo k =>
    split at h
    · cases h
      have hf : NotifyFrame s _ t (if s.nothingToWake t k then k.ret else .takeInfo k) :=
        ⟨rfl, rfl, rfl, rfl, rfl, rfl, rfl⟩
      refine .notify (h := k) (by rw [hpc]; rfl) ?_ hf
      split
      · exact .inl rfl
      · exact .inr rfl
    · cases h
  case takeInfo k =>
    have hk : (s.threads t).pc.notifying = some k := by rw [hpc]; rfl
    have hret : NotifyFrame s (s.goto t k.ret) t k.ret := ⟨rfl, rfl, rfl, rfl, rfl, rfl, rfl⟩
    split at h
    · split at h
      · split at h
        · cases h
          exact .notify hk (.inl rfl) hret
        · rename_i info _ _
          have hplace : (s.wake info.waker).gp.map Gp.place = s.gp.map Gp.place := by
            simp only [wake, Option.map_map]
            congr 1
          have hf : NotifyFrame s s' t (.clearHasSubscriber k) := by
            cases h
            exact ⟨rfl, rfl, rfl, rfl, rfl, hplace, rfl⟩
          exact .notify hk (.inr rfl) hf
      · cases h
        exact .notify hk (.inl rfl) hret
    · cases h
  case clearHasSubscriber k =>
    have hf : NotifyFrame s s' t k.ret := h ▸ ⟨rfl, rfl, rfl, rfl, rfl, rfl, rfl⟩
    exact .notify (by rw [hpc]; rfl) (.inl rfl) hf

theorem hookStep_atUser {s s' : Core} {t : Tid} (h : s.hookStep t = some s') :
    (s.threads t).pc.atUser = false := by
  cases hu : (s.threads t).pc <;> simp [hookStep, hu, Pc.atUser] at h ⊢

-- ---------------------------------------------------------------------------
-- The performer
-- ---------------------------------------------------------------------------

/-- A step of the performer, as the book-keeping of epochs sees it: where it
stands afterwards (`none` once it is done) and the epoch id it leaves. -/
inductive GpMove (cfg : Config) (s : Core) (g : Gp) : Option GpPc → Nat → Prop
  | loadEpoch : g.pc = .loadEpoch → s.curEpochId ≠ cfg.epochIdMax →
      GpMove cfg s g (some (.storeNext s.curEpochId)) s.curEpochId
  | loadMax : g.pc = .loadEpoch → s.curEpochId = cfg.epochIdMax →
      GpMove cfg s g (some .storeReset) s.curEpochId
  | storeNext {orig} : g.pc = .storeNext orig → GpMove cfg s g
      (some (.subscribe (.next (cfg.nextEpochId orig)))) (cfg.nextEpochId orig)
  | storeReset : g.pc = .storeReset → GpMove cfg s g (some (.subscribe .reset)) epochIdMin
  | storeLeave : g.pc = .storeLeave → GpMove cfg s g (some (.subscribe .leave)) (epochIdMin + 2)
  | beginScan {w sub t self} : g.pc = .beginScan w sub → g.runner = some t →
      (s.threads t).slot = some self →
      GpMove cfg s g (some (.scan w sub self s.len 0)) s.curEpochId
  | panic {w sub t} : g.pc = .beginScan w sub → g.runner = some t → (s.threads t).slot = none →
      GpMove cfg s g (some (.dropFlag w sub .abandoned)) s.curEpochId
  | scanPass {w sub self len i} : g.pc = .scan w sub self len i → i < len →
      w.passes self i (s.slots i) = true →
      GpMove cfg s g (some (.scan w sub self len (i + 1))) s.curEpochId
  | scanFail {w sub self len i} : g.pc = .scan w sub self len i → i < len →
      w.passes self i (s.slots i) = false →
      GpMove cfg s g (some (.check w sub self)) s.curEpochId
  | scanEnd {w sub self len i} : g.pc = .scan w sub self len i → len ≤ i →
      GpMove cfg s g (some (.dropFlag w sub .passed)) s.curEpochId
  | between {w pc} : g.pc.between = some w → pc.between = some w →
      GpMove cfg s g (some pc) s.curEpochId
  | dropFlag {w sub d} : g.pc = .dropFlag w sub d → d ≠ .again →
      GpMove cfg s g (some (.dropInfo w sub d)) s.curEpochId
  | resetDone {sub} : g.pc = .dropInfo .reset sub .passed →
      GpMove cfg s g (some .storeLeave) s.curEpochId
  | finish {w sub} : g.pc = .dropInfo w sub .passed → w ≠ .reset →
      GpMove cfg s g (some .finished) s.curEpochId
  | abort {w sub} : g.pc = .dropInfo w sub .abandoned →
      GpMove cfg s g (some .aborted) s.curEpochId
  | done : g.pc = .finished ∨ g.pc = .aborted → GpMove cfg s g none s.curEpochId

/-- What a step of the performer leaves alone. -/
structure GpFrame (s s' : Core) (g : Gp) : Prop where
  threads : s'.threads = s.threads
  slots : s'.slots = s.slots
  len : s'.len = s.len
  freeSlots : s'.freeSlots = s.freeSlots
  clock : s'.clock = s.clock
  since : ∀ g' ∈ s'.gp, g'.since = g.since
  runner : ∀ g' ∈ s'.gp, g'.runner = g.runner ∨ g'.runner = none ∧ g'.pc.between.isSome

theorem gpStep_move {cfg : Config} {s s' : Core} {g : Gp} (h : s.gpStep cfg g = some s') :
    GpMove cfg s g (s'.gp.map Gp.pc) s'.curEpochId ∧ GpFrame s s' g := by
  -- all but two steps keep the performer's thread
  have stay {s₁ : Core} {pc : GpPc} (h₁ : s₁.threads = s.threads) (h₂ : s₁.slots = s.slots)
      (h₃ : s₁.len = s.len) (h₄ : s₁.freeSlots = s.freeSlots) (h₅ : s₁.clock = s.clock) :
      GpFrame s (s₁.gotoGp g pc) g := by
    refine ⟨h₁, h₂, h₃, h₄, h₅, ?_, ?_⟩ <;> intro g' hg <;> cases Option.some.inj hg
    · rfl
    · exact .inl rfl
  unfold gpStep at h
  cases hpc : g.pc <;> simp only [hpc, Option.some.injEq, reduceCtorEq] at h
  case loadEpoch =>
    split at h <;> rename_i he
    · exact h ▸ ⟨.loadMax hpc he, stay rfl rfl rfl rfl rfl⟩
    · exact h ▸ ⟨.loadEpoch hpc he, stay rfl rfl rfl rfl rfl⟩
  case storeNext orig => exact h ▸ ⟨.storeNext hpc, stay rfl rfl rfl rfl rfl⟩
  case storeReset => exact h ▸ ⟨.storeReset hpc, stay rfl rfl rfl rfl rfl⟩
  case storeLeave => exact h ▸ ⟨.storeLeave hpc, stay rfl rfl rfl rfl rfl⟩
  case subscribe w =>
    exact h ▸ ⟨.between (by rw [hpc]; rfl) rfl, stay rfl rfl rfl rfl rfl⟩
  case loadSnapshot w =>
    exact h ▸ ⟨.between (by rw [hpc]; rfl) rfl, stay rfl rfl rfl rfl rfl⟩
  case scanFence w sub =>
    exact h ▸ ⟨.between (by rw [hpc]; rfl) rfl, stay rfl rfl rfl rfl rfl⟩
  case beginScan w sub =>
    obtain ⟨t, ht, h⟩ := Option.bind_eq_some_iff.mp h
    split at h <;> cases h
    · rename_i self hs
      exact ⟨.beginScan hpc ht hs, stay rfl rfl rfl rfl rfl⟩
    · rename_i hs
      exact ⟨.panic hpc ht hs, stay rfl rfl rfl rfl rfl⟩
  case scan w sub self len i =>
    split at h <;> cases h
    · rename_i hi
      refine ⟨?_, stay rfl rfl rfl rfl rfl⟩
      cases hp : w.passes self i (s.slots i) with
      | true => simpa [hp] using GpMove.scanPass hpc hi hp
      | false => simpa [hp] using GpMove.scanFail hpc hi hp
    · rename_i hi
      exact ⟨.scanEnd hpc (Nat.le_of_not_lt hi), stay rfl rfl rfl rfl rfl⟩
  case check w sub self =>
    refine h ▸ ⟨.between (by rw [hpc]; rfl) ?_, stay rfl rfl rfl rfl rfl⟩
    split
    · rfl
    · split <;> rfl
  case register w sub self =>
    obtain ⟨t, ht, h⟩ := Option.bind_eq_some_iff.mp h
    split at h <;> cases h
    exact ⟨.between (by rw [hpc]; rfl) rfl, stay rfl rfl rfl rfl rfl⟩
  case readRegistered w sub self =>
    obtain ⟨t, ht, h⟩ := Option.bind_eq_some_iff.mp h
    split at h
    · split at h <;> cases h
      · refine ⟨.between (by rw [hpc]; rfl) ?_, stay rfl rfl rfl rfl rfl⟩
        split <;> rfl
      · exact ⟨.between (by rw [hpc]; rfl) rfl, stay rfl rfl rfl rfl rfl⟩
    · cases h
  case updateRegistered w sub self tidGood wakerGood =>
    obtain ⟨t, ht, h⟩ := Option.bind_eq_some_iff.mp h
    split at h
    · split at h <;> cases h
      · exact ⟨.between (by rw [hpc]; rfl) rfl, stay rfl rfl rfl rfl rfl⟩
      · exact ⟨.between (by rw [hpc]; rfl) rfl, stay rfl rfl rfl rfl rfl⟩
    · cases h
  case recheck w sub self firstPoll =>
    subst h
    split
    · exact ⟨.between (by rw [hpc]; rfl) rfl, stay rfl rfl rfl rfl rfl⟩
    · refine ⟨.between (by rw [hpc]; rfl) rfl, rfl, rfl, rfl, rfl, rfl, ?_, ?_⟩ <;>
        intro g' hg <;> cases Option.some.inj hg
      · rfl
      · exact .inr ⟨rfl, rfl⟩
  case dropFlag w sub d =>
    subst h
    have hframe : GpFrame s ((if sub.consumed then s else { s with hasSubscriber := false }).gotoGp g
        (.dropInfo w sub d)) g := by
      split <;> exact stay rfl rfl rfl rfl rfl
    have hcur : ((if sub.consumed then s else { s with hasSubscriber := false }).gotoGp g
        (.dropInfo w sub d)).curEpochId = s.curEpochId := by
      split <;> rfl
    refine ⟨?_, hframe⟩
    rw [hcur]
    cases d with
    | again => exact .between (by rw [hpc]; rfl) rfl
    | passed => exact .dropFlag hpc nofun
    | abandoned => exact .dropFlag hpc nofun
  case dropInfo w sub d =>
    split at h <;> cases h
    have hframe (pc : GpPc) : GpFrame s ((if sub.hadAlreadyRegistered then
        { s with subscriberInfo := none } else s).gotoGp g pc) g := by
      split <;> exact stay rfl rfl rfl rfl rfl
    have hcur (pc : GpPc) : ((if sub.hadAlreadyRegistered then
        { s with subscriberInfo := none } else s).gotoGp g pc).curEpochId = s.curEpochId := by
      split <;> rfl
    refine ⟨?_, hframe _⟩
    rw [hcur]
    cases d with
    | again => exact .between (by rw [hpc]; rfl) rfl
    | passed =>
      cases w with
      | reset => exact .resetDone hpc
      | next n => exact .finish hpc nofun
      | leave => exact .finish hpc nofun
    | abandoned => exact .abort hpc
  case finished =>
    refine h ▸ ⟨.done (.inl hpc), rfl, rfl, rfl, rfl, rfl, ?_, ?_⟩ <;> intro g' hg <;> cases hg
  case aborted =>
    refine h ▸ ⟨.done (.inr hpc), rfl, rfl, rfl, rfl, rfl, ?_, ?_⟩ <;> intro g' hg <;> cases hg

-- ---------------------------------------------------------------------------
-- All steps
-- ---------------------------------------------------------------------------

/-- A step of the machine, before the clock ticks. -/
inductive Move (cfg : Config) (s : Core) : Act → Core → Prop
  | call {t h} : s.free t = true → Move cfg s (.call t h) (s.callHook t h)
  | hook {t s'} : s.hookStep t = some s' → HookMove s t s' → Move cfg s (.hook t) s'
  | openSection {t} : s.free t = true → s.tracked t = true → Move cfg s (.openSection t)
      (s.setThread t { s.threads t with sections := s.clock :: (s.threads t).sections })
  | closeSection {t o rest} : s.free t = true → (s.threads t).sections = o :: rest →
      Move cfg s (.closeSection t) (s.setThread t { s.threads t with sections := rest })
  | begin {t wk} : s.free t = true → s.gp = none → Move cfg s (.begin t wk)
      (s.setGp { pc := .loadEpoch, runner := some t, waker := wk, woken := [], since := s.clock })
  | poll {t wk g w sub self} : s.free t = true → s.gp = some g → g.pc = .suspended w sub self →
      g.runner = none → Move cfg s (.poll t wk)
        (s.setGp { g with pc := .check w sub self, runner := some t, waker := wk, woken := [] })
  | gp {g s'} : s.gp = some g → s.gpStep cfg g = some s' →
      GpMove cfg s g (s'.gp.map Gp.pc) s'.curEpochId → GpFrame s s' g → Move cfg s .gp s'
  | abandon {g w sub self} : s.gp = some g → g.pc = .suspended w sub self → g.runner = none →
      Move cfg s .abandon (s.gotoGp g (.dropFlag w sub .abandoned))
  | other : Move cfg s .other s

theorem step_move {cfg : Config} {s s' : Core} {a : Act} (h : s.step cfg a = some s') :
    ∃ s₁, s' = s₁.tick ∧ Move cfg s a s₁ := by
  obtain ⟨s₁, ha, rfl⟩ := Option.map_eq_some_iff.mp h
  clear h
  refine ⟨s₁, rfl, ?_⟩
  cases a with
  | call t k =>
    simp only [act] at ha
    split at ha <;> cases ha
    rename_i hf
    exact .call hf
  | hook t => exact .hook ha (hookStep_move ha)
  | openSection t =>
    simp only [act, enterSection] at ha
    split at ha
    · split at ha <;> cases ha
      rename_i hf ht
      exact .openSection hf ht
    · cases ha
  | closeSection t =>
    simp only [act, exitSection] at ha
    split at ha
    · split at ha <;> cases ha
      rename_i hf _ _ _ hs
      exact .closeSection hf hs
    · cases ha
  | begin t wk =>
    simp only [act, beginGp] at ha
    split at ha
    · split at ha <;> cases ha
      rename_i hf _ hg
      exact .begin hf hg
    · cases ha
  | poll t wk =>
    simp only [act, pollGp] at ha
    split at ha
    · split at ha <;> cases ha
      rename_i hf _ _ _ _ _ _ _ hg
      exact .poll hf hg rfl rfl
    · cases ha
  | gp =>
    obtain ⟨g, hg, ha⟩ := Option.bind_eq_some_iff.mp ha
    exact .gp hg ha (gpStep_move ha).1 (gpStep_move ha).2
  | abandon =>
    simp only [act, abandonGp] at ha
    split at ha <;> cases ha
    rename_i hg
    exact .abandon hg rfl rfl
  | other =>
    cases ha
    exact .other

end Core
end TokioRcu
